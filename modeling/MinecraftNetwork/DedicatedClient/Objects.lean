import MinecraftNetwork.DedicatedClient.Basic
import MinecraftNetwork.Endpoint.Interleaving

/-!
# The connections of a client

A connection of the client closes its socket in no run: `Connection::Disconnect` posts the
lambda that does it only while the connection has no owner, and then the socket of a client
is not open yet. `Sound` collects what follows from this for the connections, the tasks and
the log; each part of a step keeps it.
-/

namespace MinecraftNetwork

open Runs

namespace DedicatedClient

/-- A connection of the client, whose socket nobody closes. -/
structure Held (e : Endpoint) : Prop where
  owner : e.connection.owner = .dedicatedClient
  connectable : e.connection.isOpen = true → e.connection.hasConnectable = true
  posted : .close ∉ e.posted

/-! ## What is done with a connection -/

section

variable {e e' : Endpoint}

theorem held_create : Held (.create .dedicatedClient false) := by
  refine ⟨rfl, fun h => ?_, by simp [Endpoint.create]⟩
  cases h

theorem Held.send (h : Held e) (m : Message) : Held (e.send m) := by
  refine ⟨h.owner, h.connectable, ?_⟩
  simpa [Endpoint.send] using h.posted

theorem Held.disconnect (h : Held e) : Held e.disconnect := by
  refine ⟨h.owner, h.connectable, ?_⟩
  simpa [Endpoint.disconnect, Connection.disconnect_post h.connectable] using h.posted

theorem Held.transfer {op : WriteOp} {n : Nat} (h : Held e) (hTransfer : e.transfer op n = some e') :
    Held e' := by
  obtain ⟨hConnection, -, hPosted, -⟩ := Endpoint.transfer_frame hTransfer
  refine ⟨?_, ?_, ?_⟩
  · rw [hConnection]
    exact h.owner
  · rw [hConnection]
    exact h.connectable
  · rw [hPosted]
    exact h.posted

theorem Held.perform {effect : Effect} (h : Held e) (hNot : effect ≠ .postClose) :
    Held (e.perform effect) := by
  cases effect with
  | postClose => exact absurd rfl hNot
  | asyncConnect | asyncRead | asyncWrite | onValidate | onInvalidate | disconnect | emplaceBack
  | emptyDeque => exact ⟨h.owner, h.connectable, h.posted⟩

/-- A handler leaves the socket as it is, and does not post its close. -/
theorem Held.handle {c : Completion} {effects : List Effect} (h : Held e)
    (hHandle : e.handle c = some (e', effects)) :
    Held e' ∧ e.connection.SameSocket e'.connection ∧ .postClose ∉ effects := by
  rcases Endpoint.handle_sameSocket hHandle with hSame | ⟨-, hClose, -⟩
  · refine ⟨⟨?_, ?_, ?_⟩, hSame, fun hMem => ?_⟩
    · rw [hSame.owner]
      exact h.owner
    · rw [hSame.isOpen, hSame.hasConnectable]
      exact h.connectable
    · exact fun hMem => h.posted (Endpoint.handle_posted hHandle hMem)
    · have hPosts := Endpoint.handle_post h.connectable hHandle
      rw [List.filterMap_eq_nil_iff] at hPosts
      have hNone := hPosts _ hMem
      cases hNone
  · exact absurd (List.mem_of_mem_head? hClose) h.posted

theorem Held.connectToServer (h : Held e) (opened : Bool) :
    Held (e.run (e.connection.connectToServer opened)) ∧
      (e.run (e.connection.connectToServer opened)).connection.isOpen = opened ∧
        (e.run (e.connection.connectToServer opened)).connection.hasConnectable = true ∧
          (e.run (e.connection.connectToServer opened)).connecting = true := by
  simp only [Connection.connectToServer, h.owner, if_true, Endpoint.run]
  refine ⟨⟨?_, ?_, ?_⟩, ?_, ?_, ?_⟩
  · simp
  · simp
  · simpa [Effect.post?] using h.posted
  · simp
  · simp
  · simp

end

/-! ## The invariant -/

/-- The rest of a member function posts no close. -/
def Task.isFine : Task → Prop
  | .resume _ effects => .postClose ∉ effects
  | .start _ => False
  | .callback _ | .connect | .greet _ | .connected _ | .stop | .join => True

/-- The new connection of a `Connect` that has not stored it yet. -/
def Task.start? : Task → Option Nat
  | .start x => some x
  | .resume _ _ | .callback _ | .connect | .greet _ | .connected _ | .stop | .join => none

/-- The new connections, from the innermost `Connect` on. -/
def starts (s : DedicatedClient) : List Nat := (s.tasks .application).filterMap Task.start?

/-- `OnDisconnect` is not called, and a socket that was opened is open. -/
def Fine (s : DedicatedClient) : Notice → Prop
  | .call (.onDisconnect _) => False
  | .started x opened => x < s.allocated ∧ (s.objects x).connection.hasConnectable = true ∧
      (opened = true → (s.objects x).connection.isOpen = true)
  | .call (.allowConnection _) | .call (.onConnect _) | .call (.onValidate _)
  | .call (.onInvalidate _) | .call (.onMessage _) | .assigned _ _ | .entered _ _ _ | .connected _
  | .failed _ => True

/-- What holds of the connections, the tasks and the log of a client. -/
structure Sound (s : DedicatedClient) : Prop where
  objects : ∀ x, Held (s.objects x)
  resumes : ∀ t x effects, .resume x effects ∈ s.tasks t → .postClose ∉ effects
  once : s.starts.Nodup
  fresh : ∀ x ∈ s.starts, x < s.allocated ∧ (s.objects x).connection.hasConnectable = false
  log : ∀ n ∈ s.log, s.Fine n

section

variable {s s' : DedicatedClient}

theorem Task.start_fine {tasks : List Task} (h : ∀ task ∈ tasks, task.isFine) :
    tasks.filterMap Task.start? = [] := by
  rw [List.filterMap_eq_nil_iff]
  intro task hMem
  cases task with
  | start x => exact (h _ hMem).elim
  | callback | resume | connect | greet | connected | stop | join => rfl

/-- What the log says stays true while the sockets stay open. -/
theorem Fine.mono {n : Notice} (h : s.Fine n) (hAllocated : s.allocated ≤ s'.allocated)
    (hSame : ∀ x, .started x true = n ∨ .started x false = n → x < s.allocated →
      (s.objects x).connection.SameSocket (s'.objects x).connection) : s'.Fine n := by
  cases n with
  | started x opened =>
    obtain ⟨hOld, hOwner, hYes⟩ := h
    have hKept := hSame x (by cases opened <;> simp) hOld
    refine ⟨Nat.lt_of_lt_of_le hOld hAllocated, hKept.hasConnectable.trans hOwner, fun hOpened => ?_⟩
    exact hKept.isOpen.trans (hYes hOpened)
  | call c =>
    cases c with
    | onDisconnect => exact h.elim
    | _ => trivial
  | assigned | entered | connected | failed => trivial

theorem Sound.setObject {x : Nat} {e : Endpoint} (h : Sound s) (hHeld : Held e)
    (hSame : (s.objects x).connection.SameSocket e.connection) : Sound (s.setObject x e) := by
  have hAll : ∀ y, Held ((s.setObject x e).objects y) ∧
      (s.objects y).connection.SameSocket ((s.setObject x e).objects y).connection := by
    intro y
    by_cases hThis : y = x
    · subst hThis
      simpa [DedicatedClient.setObject] using ⟨hHeld, hSame⟩
    · simpa [DedicatedClient.setObject, hThis] using ⟨h.objects y, ⟨rfl, rfl, rfl⟩⟩
  refine ⟨fun y => (hAll y).1, h.resumes, h.once, fun y hMem => ?_, fun n hMem => ?_⟩
  · obtain ⟨hOld, hOwner⟩ := h.fresh y hMem
    exact ⟨hOld, (hAll y).2.hasConnectable.trans hOwner⟩
  · exact (h.log n hMem).mono (Nat.le_refl _) fun y _ _ => (hAll y).2

/-- A thread exchanges its first tasks. -/
theorem Sound.exchange (old new : List Task) {t : Thread} {rest : List Task} (h : Sound s)
    (hTasks : s.tasks t = old ++ rest) (hNew : ∀ task ∈ new, task.isFine) :
    Sound (s.setTasks t (new ++ rest)) := by
  have hSublist : List.Sublist (s.setTasks t (new ++ rest)).starts s.starts := by
    cases t with
    | context => simp [starts, DedicatedClient.setTasks]
    | application =>
      simp [starts, DedicatedClient.setTasks, hTasks, Task.start_fine hNew]
  refine ⟨h.objects, fun t' x effects hMem => ?_, h.once.sublist hSublist,
    fun x hMem => h.fresh x (hSublist.subset hMem), h.log⟩
  by_cases hSame : t' = t
  · subst hSame
    simp only [DedicatedClient.setTasks, Function.update_self] at hMem
    rcases List.mem_append.mp hMem with hThis | hOld
    · exact hNew _ hThis
    · refine h.resumes t' x effects ?_
      rw [hTasks]
      exact List.mem_append_right _ hOld
  · simp only [DedicatedClient.setTasks, Function.update_of_ne hSame] at hMem
    exact h.resumes t' x effects hMem

theorem Sound.notify {n : Notice} (h : Sound s) (hFine : s.Fine n) : Sound (s.notify n) := by
  refine ⟨h.objects, h.resumes, h.once, h.fresh, fun n' hMem => ?_⟩
  have hKept : ∀ n'', s.Fine n'' → (s.notify n).Fine n'' := fun n'' hOld =>
    hOld.mono (Nat.le_refl _) fun _ _ _ => ⟨rfl, rfl, rfl⟩
  rcases List.mem_append.mp hMem with hOld | hNew
  · exact hKept n' (h.log n' hOld)
  · rw [List.mem_singleton.mp hNew]
    exact hKept n hFine

theorem Sound.call {t : Thread} {c : Callback} {rest : List Task} (h : Sound s)
    (hNot : ∀ x, c ≠ .onDisconnect x) (hRest : ∀ task ∈ rest, task.isFine) :
    Sound (s.call t c rest) := by
  refine (h.exchange (t := t) [] (.callback c :: rest) rfl ?_).notify ?_
  · intro task hMem
    rcases List.mem_cons.mp hMem with rfl | hMem
    · trivial
    · exact hRest task hMem
  · cases c with
    | onDisconnect x => exact absurd rfl (hNot x)
    | _ => trivial

theorem Sound.disconnectFrom {x : Nat} (h : Sound s) : Sound (s.disconnectFrom x) := by
  have hObject := h.setObject (h.objects x).disconnect ⟨rfl, rfl, rfl⟩
  simp only [DedicatedClient.disconnectFrom]
  split
  · exact ⟨hObject.objects, hObject.resumes, hObject.once, hObject.fresh, hObject.log⟩
  · exact hObject

theorem Sound.disconnect {t : Thread} {rest : List Task} (h : Sound s)
    (hRest : ∀ task ∈ rest, task.isFine) : Sound (s.disconnect t rest) := by
  simp only [DedicatedClient.disconnect]
  split
  · refine h.disconnectFrom.exchange [] (.stop :: .join :: rest) rfl ?_
    intro task hMem
    rcases List.mem_cons.mp hMem with rfl | hMem
    · trivial
    · rcases List.mem_cons.mp hMem with rfl | hMem
      · trivial
      · exact hRest task hMem
  · exact h.exchange [] _ rfl hRest

theorem Sound.advance {x : Nat} {effects : List Effect} (h : Sound s)
    (hNot : .postClose ∉ effects) : Sound (s.advance x effects) := by
  induction effects generalizing s with
  | nil => exact h
  | cons effect effects ih =>
    rw [List.mem_cons, not_or] at hNot
    obtain ⟨hFirst, hRest⟩ := hNot
    have hConnection : ((s.objects x).perform effect).connection = (s.objects x).connection :=
      Endpoint.performAll_connection (s.objects x) [effect]
    have hObject := h.setObject ((h.objects x).perform (Ne.symm hFirst))
      (by rw [hConnection]; exact ⟨rfl, rfl, rfl⟩)
    have hResume : ∀ task ∈ [Task.resume x effects], task.isFine := by
      intro task hMem
      rw [List.mem_singleton.mp hMem]
      exact hRest
    cases effect with
    | onValidate | onInvalidate => exact hObject.call (by simp) hResume
    | disconnect | emplaceBack =>
      exact ih ⟨hObject.objects, hObject.resumes, hObject.once, hObject.fresh, hObject.log⟩ hRest
    | asyncConnect | asyncRead | asyncWrite | postClose | emptyDeque => exact ih hObject hRest

/-! ## Steps -/

theorem Sound.act {t : Thread} {action : Action} (h : Sound s) (hStep : s.act t action = some s') :
    Sound s' := by
  cases act_cases hStep with
  | connect => exact h.exchange [] [.connect] rfl (by simp [Task.isFine])
  | reconnect => exact h.disconnect (by simp [Task.isFine])
  | disconnect => exact h.disconnect (by simp)
  | @send _ x m | @sendTo _ x m => exact h.setObject ((h.objects x).send m) ⟨rfl, rfl, rfl⟩
  | sendNothing => exact h
  | disconnectFrom => exact h.disconnectFrom
  | keep | drop => exact ⟨h.objects, h.resumes, h.once, h.fresh, h.log⟩

/-- A new connection is told of `ConnectToServer` once. -/
theorem Sound.store (opened : Bool) {x : Nat} {rest : List Task} (h : Sound s)
    (hTasks : s.tasks .application = .start x :: rest) :
    Sound ((s.setTasks .application rest).store x opened) := by
  have hStarts : s.starts = x :: (s.setTasks .application rest).starts := by
    simp [starts, DedicatedClient.setTasks, hTasks, Task.start?]
  obtain ⟨hAllocated, hNot⟩ := h.fresh x (by simp [hStarts])
  have hOnce := h.once
  rw [hStarts, List.nodup_cons] at hOnce
  have hPop := h.exchange (t := .application) [.start x] [] hTasks (by simp)
  obtain ⟨hHeld, hOpen, hOwner, -⟩ := (h.objects x).connectToServer opened
  have hOther : ∀ y, y ≠ x → ((s.setTasks .application rest).store x opened).objects y =
      s.objects y := by
    intro y hNe
    simp [DedicatedClient.store, DedicatedClient.notify, DedicatedClient.setObject,
      DedicatedClient.setTasks, hNe]
  have hThis : ((s.setTasks .application rest).store x opened).objects x =
      (s.objects x).run ((s.objects x).connection.connectToServer opened) := by
    simp [DedicatedClient.store, DedicatedClient.notify, DedicatedClient.setObject,
      DedicatedClient.setTasks]
  refine ⟨fun y => ?_, hPop.resumes, hPop.once, fun y hMem => ?_, fun n hMem => ?_⟩
  · by_cases hSame : y = x
    · subst hSame
      rw [hThis]
      exact hHeld
    · rw [hOther y hSame]
      exact h.objects y
  · rw [hOther y (by rintro rfl; exact hOnce.1 hMem)]
    exact hPop.fresh y hMem
  · rcases List.mem_append.mp hMem with hOld | hNew
    · have hFine := h.log n hOld
      refine hFine.mono (Nat.le_refl _) fun y hNotice _ => ?_
      -- a connection that has been started has an owner, and the new one has none
      have hNe : y ≠ x := by
        rintro rfl
        rcases hNotice with rfl | rfl <;>
        · obtain ⟨-, hYes, -⟩ := hFine
          rw [hNot] at hYes
          cases hYes
      rw [hOther y hNe]
      exact ⟨rfl, rfl, rfl⟩
    · rw [List.mem_singleton.mp hNew]
      refine ⟨hAllocated, ?_, fun hOpened => ?_⟩
      · rw [hThis]
        exact hOwner
      · rw [hThis, hOpen, hOpened]

theorem Sound.start {x : Nat} {opened spawned : Bool} {rest : List Task} (h : Sound s)
    (hTasks : s.tasks .application = .start x :: rest) :
    Sound (s.start x opened spawned rest) := by
  have hStore := h.store opened hTasks
  simp only [DedicatedClient.start]
  split
  · simp only [assign]
    have hAssigned : ∀ joinable, Sound
        (((s.setTasks .application rest).store x opened).notify (.assigned x joinable)) :=
      fun joinable => hStore.notify trivial
    split
    · have hGreet := (hAssigned false).exchange (t := .application) [] [.greet x] rfl
        (by simp [Task.isFine])
      exact ⟨hGreet.objects, hGreet.resumes, hGreet.once, hGreet.fresh, hGreet.log⟩
    all_goals exact ⟨(hAssigned true).objects, (hAssigned true).resumes, (hAssigned true).once,
      (hAssigned true).fresh, (hAssigned true).log⟩
  · exact hStore.notify trivial

theorem Sound.create {rest : List Task} (h : Sound s)
    (hTasks : s.tasks .application = .connect :: rest) :
    Sound (s.create rest) := by
  have hPop := h.exchange (t := .application) [.connect] [] hTasks (by simp)
  have hOther : ∀ y, y < s.allocated → Function.update s.objects s.allocated
      (.create .dedicatedClient false) y = s.objects y :=
    fun y hOld => Function.update_of_ne (Nat.ne_of_lt hOld) _ _
  have hStarts : ∀ y ∈ (s.setTasks .application rest).starts, y < s.allocated :=
    fun y hMem => (hPop.fresh y hMem).1
  have hFine : ∀ n, s.Fine n → (s.create rest).Fine n := by
    intro n hFine
    refine hFine.mono (Nat.le_succ _) fun y _ hOld => ?_
    change (s.objects y).connection.SameSocket (Function.update s.objects s.allocated _ y).connection
    rw [hOther y hOld]
    exact ⟨rfl, rfl, rfl⟩
  refine ⟨fun y => ?_, fun t y effects hMem => ?_, ?_, fun y hMem => ?_, fun n hMem => ?_⟩
  · change Held (Function.update s.objects s.allocated _ y)
    by_cases hSame : y = s.allocated
    · subst hSame
      rw [Function.update_self]
      exact held_create
    · rw [Function.update_of_ne hSame]
      exact h.objects y
  · refine hPop.resumes t y effects ?_
    cases t with
    | context => exact hMem
    | application =>
      simpa [DedicatedClient.create, DedicatedClient.call, DedicatedClient.notify,
        DedicatedClient.setTasks, DedicatedClient.setObject] using hMem
  · refine List.nodup_cons.mpr ⟨fun hMem => ?_, hPop.once⟩
    exact Nat.lt_irrefl _ (hStarts _ hMem)
  · rcases List.mem_cons.mp hMem with rfl | hOld
    · refine ⟨Nat.lt_succ_self _, ?_⟩
      change (Function.update s.objects s.allocated _ s.allocated).connection.hasConnectable = false
      rw [Function.update_self]
      rfl
    · obtain ⟨hLess, hNot⟩ := hPop.fresh y hOld
      refine ⟨Nat.lt_succ_of_lt hLess, ?_⟩
      change (Function.update s.objects s.allocated _ y).connection.hasConnectable = false
      rw [hOther y hLess]
      exact hNot
  · rcases List.mem_append.mp hMem with hOld | hNew
    · exact hFine n (h.log n hOld)
    · rw [List.mem_singleton.mp hNew]
      trivial

/-- **Every step keeps the connections of the client as they should be.** -/
theorem Sound.next {event : Event} (h : Sound s) (hStep : s.next event = some s') : Sound s' := by
  have hPop : ∀ old {t rest}, s.tasks t = old ++ rest → Sound (s.setTasks t rest) :=
    fun _ _ _ hTasks => h.exchange _ [] hTasks (by simp)
  cases next_cases hStep with
  | app _ hAct => exact h.act hAct
  | @leave t c rest hTasks => exact hPop [.callback c] hTasks
  | @deny x y rest hTasks | @throwAllow x y rest hTasks =>
    exact (hPop [.callback (.allowConnection x), .start y] hTasks).notify trivial
  | throwMake hTasks => exact (hPop [.connect] hTasks).notify trivial
  | @throwGreet x y rest hTasks =>
    exact (hPop [.callback (.onConnect x), .connected y] hTasks).notify trivial
  | create hTasks => exact h.create hTasks
  | start hTasks => exact h.start hTasks
  | @resume x effects rest hTasks =>
    refine (hPop [.resume x effects] hTasks).advance ?_
    refine h.resumes .context x effects ?_
    rw [hTasks]
    exact List.mem_cons_self
  | @greet x rest hTasks => exact (hPop [.greet x] hTasks).call (by simp) (by simp [Task.isFine])
  | @connected x rest hTasks => exact (hPop [.connected x] hTasks).notify trivial
  | stop hTasks =>
    have hRest := hPop [.stop] hTasks
    exact ⟨hRest.objects, hRest.resumes, hRest.once, hRest.fresh, hRest.log⟩
  | join hTasks =>
    have hRest := hPop [.join] hTasks
    exact ⟨hRest.objects, hRest.resumes, hRest.once, hRest.fresh, hRest.log⟩
  | @pop m rest q =>
    refine Sound.call (s := { s with incoming := q }) ?_ (by simp) (by simp)
    exact ⟨h.objects, h.resumes, h.once, h.fresh, h.log⟩
  | @enter x =>
    have hEntered := h.notify (n := .entered x s.stopped s.hasWork) trivial
    exact ⟨hEntered.objects, hEntered.resumes, hEntered.once, hEntered.fresh, hEntered.log⟩
  | @complete x c e effects _ _ hHandle =>
    obtain ⟨hHeld, hSame, hNot⟩ := (h.objects x).handle hHandle
    exact (h.setObject hHeld hSame).advance hNot
  | poll | closeSocket | runOut | finish | restart =>
    exact ⟨h.objects, h.resumes, h.once, h.fresh, h.log⟩
  | @transfer x op n e _ hTransfer =>
    refine h.setObject ((h.objects x).transfer hTransfer) ?_
    rw [(Endpoint.transfer_frame hTransfer).1]
    exact ⟨rfl, rfl, rfl⟩

end

theorem sound_init : Sound {} := by
  refine ⟨fun _ => held_create, ?_, List.nodup_nil, ?_, ?_⟩
  · exact fun _ _ _ hMem => by cases hMem
  · exact fun _ hMem => by cases hMem
  · exact fun _ hMem => by cases hMem

theorem sound_of_reach {ok : DedicatedClient → Event → Prop} {s : DedicatedClient}
    (h : Reach system ok s) : Sound s := by
  refine h.invariant ?_ fun s event s' hSound _ hStep => hSound.next (next_of_step hStep)
  rintro _ rfl
  exact sound_init

end DedicatedClient

end MinecraftNetwork
