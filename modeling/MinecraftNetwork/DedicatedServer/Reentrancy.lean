import MinecraftNetwork.DedicatedServer.Registry

/-!
# `MessageAll` called from `OnDisconnect`

`MessageAll` calls `OnDisconnect` with a dead entry before it resets the entry. An override
that itself calls `MessageAll`, to announce the departure, finds the same entry in the list
again, dead as before, and is called with it again. An `Override` is any such program; the
run of a call under it is deterministic.

`Plain` describes a run in which the override has not called `MessageAll` so far, `Deep` one
in which it has and no inner call has returned, and when an inner call returns, `OnDisconnect`
has been called too often (`Excess`). Hence the call does what it should exactly when the
override makes no call at any of the dead entries (`survives_iff`).
-/

namespace MinecraftNetwork

open DedicatedServer

/-- An `OnDisconnect` that may call `MessageAll`. Whenever it is called, and whenever a call it
has made returns, it makes a call or returns, in view of what the application had seen at
each of these moments. -/
def Override : Type := List (List Notice) → Option (Message × Option Nat)

/-- A server in a call of `MessageAll`. -/
structure Reentrant where
  server : DedicatedServer
  /-- What each running `OnDisconnect` has had in view, the innermost first. -/
  views : List (List (List Notice))

namespace DedicatedServer

/-- The entry is a connected client. -/
def alive (s : DedicatedServer) (q : Option Nat) : Bool := q.any s.isConnected

/-- The live entries of `m_Clients`. -/
def lives (s : DedicatedServer) : List (Option Nat) := s.clients.filter s.alive

/-- The dead entries among the first ones. -/
def deads (s : DedicatedServer) (n : Nat) : List (Option Nat) :=
  (s.clients.take n).filter fun q => !s.alive q

/-- What the application sees of the calls of `OnDisconnect`. -/
def notices (ps : List (Option Nat)) : List Notice := ps.map fun p => .call (.onDisconnect p)

end DedicatedServer

namespace Reentrant

/-- The next step of the thread that has called `MessageAll`. -/
def step (o : Override) (t : Thread) (r : Reentrant) : Option Reentrant :=
  match r.server.tasks t, r.views with
  | .callback (.onDisconnect _) :: _, view :: views =>
    match o (view ++ [r.server.log]) with
    | some (m, ignored) =>
      (r.server.step (.app t (.messageAll m ignored))).map fun s =>
        ⟨s, (view ++ [r.server.log]) :: views⟩
    | none => (r.server.step (.leave t)).map fun s => ⟨s, views⟩
  | _, views =>
    (r.server.step (.run t)).map fun s =>
      ⟨s, if r.server.disconnects (.run t) = [] then views else [] :: views⟩

/-- A run of some steps. -/
def Runs (o : Override) (t : Thread) : Reentrant → Reentrant → Prop :=
  Relation.ReflTransGen fun r r' => r.step o t = some r'

/-- `MessageAll` has returned, has called `OnDisconnect` with each dead entry once, has posted
its message to each other live entry once, and leaves the live entries. -/
structure Done (s : DedicatedServer) (t : Thread) (m : Message) (ignored : Option Nat)
    (r : Reentrant) : Prop where
  returned : r.server.tasks t = s.tasks t
  log : r.server.log = s.log ++ notices (s.deads s.clients.length)
  posts : ∀ x, (r.server.objects x).sent.count m =
    (s.objects x).sent.count m + (s.lives.filter (· ≠ ignored)).count (some x)
  clients : r.server.clients = s.lives

/-- A call of `MessageAll` comes to its end and does what it is for. -/
def Survives (o : Override) (s : DedicatedServer) (t : Thread) (m : Message) (ignored : Option Nat) :
    Prop :=
  ∃ s₀ r, s.step (.app t (.messageAll m ignored)) = some s₀ ∧ Runs o t ⟨s₀, []⟩ r ∧
    Done s t m ignored r

variable {o : Override} {t : Thread} {r r' : Reentrant}

/-! ## The steps of a call -/

/-- The server after an iteration at a live entry. -/
def served (s : DedicatedServer) (t : Thread) (x : Nat) (m : Message) (ignored : Option Nat)
    (tasks : List Task) : DedicatedServer :=
  let s := s.setTasks t tasks
  if some x ≠ ignored then s.setObject x ((s.objects x).send m) else s

section

variable (s : DedicatedServer) (x : Nat) (m : Message) (ignored : Option Nat) (tasks : List Task)

theorem served_frame : (served s t x m ignored tasks).tasks t = tasks ∧
    (served s t x m ignored tasks).clients = s.clients ∧
      (served s t x m ignored tasks).log = s.log := by
  unfold served
  dsimp only
  split <;> simp [setTasks, setObject]

theorem served_isConnected (y : Nat) :
    (served s t x m ignored tasks).isConnected y = s.isConnected y := by
  unfold served
  dsimp only
  split
  · by_cases hSame : y = x
    · subst hSame
      simp [isConnected, setTasks, setObject, Endpoint.send]
    · simp [isConnected, setTasks, setObject, hSame]
  · rfl

theorem served_sent (y : Nat) : ((served s t x m ignored tasks).objects y).sent.count m =
    (s.objects y).sent.count m + if some x ≠ ignored ∧ x = y then 1 else 0 := by
  unfold served
  dsimp only
  split
  · rename_i hIgnored
    by_cases hSame : y = x
    · subst hSame
      simp [setTasks, setObject, Endpoint.send, hIgnored]
    · simp [setTasks, setObject, hSame, Ne.symm hSame]
  · rename_i hIgnored
    simp [setTasks, hIgnored]

end

section

variable {m : Message} {ignored p : Option Nat} {position stop : Nat} {clientsRemoved : Bool}
  {low : List Task} {view : List (List Notice)} {views : List (List (List Notice))}

theorem step_end (hTasks : r.server.tasks t = .messageAll m ignored stop stop clientsRemoved :: low) :
    r.step o t = some ⟨if clientsRemoved then
      { r.server.setTasks t low with clients := r.server.clients.filter (· ≠ none) }
      else r.server.setTasks t low, r.views⟩ := by
  simp [step, hTasks, DedicatedServer.step, iterate, disconnects, setTasks]

theorem step_serve {x : Nat} (hMore : position ≠ stop)
    (hTasks : r.server.tasks t = .messageAll m ignored position stop clientsRemoved :: low)
    (hEntry : r.server.clients[position]? = some (some x)) (hConnected : r.server.isConnected x = true) :
    r.step o t = some ⟨served r.server t x m ignored
      (.messageAll m ignored (position + 1) stop clientsRemoved :: low), r.views⟩ := by
  simp [step, hTasks, DedicatedServer.step, iterate, disconnects, hMore, hEntry, hConnected, served]

theorem step_dead (hMore : position ≠ stop)
    (hTasks : r.server.tasks t = .messageAll m ignored position stop clientsRemoved :: low)
    (hEntry : r.server.clients[position]? = some p) (hDead : r.server.alive p = false) :
    r.step o t = some ⟨r.server.setTasks t low |>.call t (.onDisconnect p)
        [.reset position p, .messageAll m ignored (position + 1) stop true],
      [] :: r.views⟩ := by
  cases p with
  | none =>
    simp [step, hTasks, DedicatedServer.step, iterate, disconnects, hMore, hEntry, call, setTasks]
  | some x =>
    have hClosed : r.server.isConnected x = false := hDead
    simp [step, hTasks, DedicatedServer.step, iterate, disconnects, hMore, hEntry, hClosed, call,
      setTasks]

theorem step_past (hMore : position ≠ stop)
    (hTasks : r.server.tasks t = .messageAll m ignored position stop clientsRemoved :: low)
    (hEntry : r.server.clients[position]? = none) : r.step o t = none := by
  simp [step, hTasks, DedicatedServer.step, iterate, hMore, hEntry]

theorem step_leave (hTasks : r.server.tasks t = .callback (.onDisconnect p) :: low)
    (hViews : r.views = view :: views) (hNone : o (view ++ [r.server.log]) = none) :
    r.step o t = some ⟨r.server.setTasks t low, views⟩ := by
  simp [step, hTasks, hViews, hNone, DedicatedServer.step]

theorem step_nested (hTasks : r.server.tasks t = .callback (.onDisconnect p) :: low)
    (hViews : r.views = view :: views) (hCalls : o (view ++ [r.server.log]) = some (m, ignored))
    (hStep : r.step o t = some r') :
    r' = ⟨r.server.setTasks t
      (.messageAll m ignored 0 r.server.clients.length false :: r.server.tasks t),
        (view ++ [r.server.log]) :: views⟩ := by
  simp only [step, hTasks, hViews, hCalls, DedicatedServer.step, inApplication, if_true, act]
    at hStep
  split at hStep
  · rw [Option.map_some, Option.some.injEq] at hStep
    rw [← hStep, hTasks]
  · cases hStep

theorem step_idle (hTasks : r.server.tasks t = .callback (.onDisconnect p) :: low)
    (hViews : r.views = []) : r.step o t = none := by
  simp [step, hTasks, hViews, DedicatedServer.step]

theorem step_reset (hTasks : r.server.tasks t = .reset position p :: low)
    (hBound : position < r.server.clients.length) : r.step o t = some
      ⟨{ r.server.setTasks t low with clients := r.server.clients.set position none }, r.views⟩ := by
  simp [step, hTasks, DedicatedServer.step, disconnects, hBound]

end

/-! ## The list of a call -/

/-- What a call has made of an entry it has passed. -/
def mark (s : DedicatedServer) (q : Option Nat) : Option Nat := if s.alive q then q else none

/-- `m_Clients` when a call has passed the first entries and made no inner call. -/
def marked (s : DedicatedServer) (n : Nat) : List (Option Nat) :=
  (s.clients.take n).map (mark s) ++ s.clients.drop n

/-- How often a connection is listed among the first live entries that are not ignored. -/
def listed (s : DedicatedServer) (ignored : Option Nat) (n x : Nat) : Nat :=
  ((s.clients.take n).filter fun q => s.alive q && q != ignored).count (some x)

section

variable {s : DedicatedServer} {n : Nat} {q : Option Nat}

theorem deads_zero : s.deads 0 = [] := rfl

theorem deads_succ (hEntry : s.clients[n]? = some q) :
    s.deads (n + 1) = s.deads n ++ if s.alive q then [] else [q] := by
  rw [deads, List.take_add_one, hEntry, List.filter_append]
  cases hAlive : s.alive q <;> simp [deads, hAlive]

theorem deads_prefix : s.deads n <+: s.deads s.clients.length := by
  rw [deads, deads, List.take_length]
  exact (List.take_prefix n s.clients).filter _

theorem marked_getElem (hEntry : s.clients[n]? = some q) : (marked s n)[n]? = some q := by
  have hBound := (List.getElem?_eq_some_iff.mp hEntry).1
  have hLength : ((s.clients.take n).map (mark s)).length = n := by
    rw [List.length_map, List.length_take]
    omega
  rw [marked, List.getElem?_append_right hLength.le, hLength, Nat.sub_self, List.getElem?_drop]
  exact hEntry

theorem marked_length : (marked s n).length = s.clients.length := by
  rw [marked, List.length_append, List.length_map, List.length_take, List.length_drop]
  omega

/-- Passing an entry resets it if it is dead. -/
theorem marked_succ (hEntry : s.clients[n]? = some q) :
    marked s (n + 1) = if s.alive q then marked s n else (marked s n).set n none := by
  have hBound := (List.getElem?_eq_some_iff.mp hEntry).1
  have hDrop : s.clients.drop n = q :: s.clients.drop (n + 1) := by
    rw [List.drop_eq_getElem_cons hBound, (List.getElem?_eq_some_iff.mp hEntry).2]
  have hLength : ((s.clients.take n).map (mark s)).length = n := by
    rw [List.length_map, List.length_take]
    omega
  have hNext : marked s (n + 1) =
      (s.clients.take n).map (mark s) ++ mark s q :: s.clients.drop (n + 1) := by
    rw [marked, List.take_add_one, hEntry, List.map_append, List.append_assoc]
    rfl
  rw [hNext, marked, hDrop]
  cases hAlive : s.alive q with
  | true => simp [mark, hAlive]
  | false =>
    rw [List.set_append_right _ _ hLength.le, hLength, Nat.sub_self]
    simp [mark, hAlive]

/-- Without the dead entries, of which there are none if none was met. -/
theorem marked_all (clientsRemoved : Bool)
    (hNone : clientsRemoved = false → s.deads s.clients.length = []) :
    (if clientsRemoved then (marked s s.clients.length).filter (· ≠ none)
      else marked s s.clients.length) = s.lives := by
  have hMarked : marked s s.clients.length = s.clients.map (mark s) := by
    rw [marked, List.take_length, List.drop_length, List.append_nil]
  rw [hMarked]
  cases clientsRemoved with
  | true =>
    rw [if_pos rfl, lives]
    induction s.clients with
    | nil => rfl
    | cons q clients ih =>
      rw [List.map_cons, List.filter_cons, List.filter_cons, ih]
      cases hAlive : s.alive q with
      | true =>
        have hSome : q ≠ none := by
          rintro rfl
          cases hAlive
        simp [mark, hAlive, hSome]
      | false => simp [mark, hAlive]
  | false =>
    have hAll : ∀ q ∈ s.clients, s.alive q = true := by
      have hEmpty := hNone rfl
      rw [deads, List.take_length, List.filter_eq_nil_iff] at hEmpty
      simpa using hEmpty
    rw [if_neg (by simp), lives, List.filter_eq_self.mpr hAll]
    refine (List.map_congr_left fun q hq => ?_).trans (List.map_id _)
    exact if_pos (hAll q hq)

theorem mark_alive (s : DedicatedServer) (q : Option Nat) : s.alive (mark s q) = s.alive q := by
  cases hAlive : s.alive q with
  | true => rw [mark, if_pos hAlive, hAlive]
  | false => rw [mark, if_neg (by simp [hAlive])]; rfl

theorem marked_alive : (marked s n).map s.alive = s.clients.map s.alive := by
  have hMark : s.alive ∘ mark s = s.alive := funext (mark_alive s)
  rw [marked, List.map_append, List.map_map, hMark, ← List.map_append, List.take_append_drop]

theorem listed_all (ignored : Option Nat) (x : Nat) :
    listed s ignored s.clients.length x = (s.lives.filter (· ≠ ignored)).count (some x) := by
  rw [listed, List.take_length, lives, List.filter_filter]
  refine congrArg (List.count (some x)) (List.filter_congr fun q _ => ?_)
  rw [Bool.and_comm]
  by_cases hSame : q = ignored <;> simp [hSame]

theorem listed_succ {ignored : Option Nat} {x : Nat} (hEntry : s.clients[n]? = some q) :
    listed s ignored (n + 1) x =
      listed s ignored n x + if s.alive q && q != ignored && q == some x then 1 else 0 := by
  rw [listed, List.take_add_one, hEntry, List.filter_append, List.count_append, listed]
  cases hAlive : s.alive q && q != ignored <;> simp [hAlive, List.count_singleton]

end

/-! ## A call without inner calls -/

/-- The override makes no call at the first dead entries. -/
def Quiet (o : Override) (s : DedicatedServer) (n : Nat) : Prop :=
  ∀ ps, ps ≠ [] → ps <+: s.deads n → o [s.log ++ notices ps] = none

/-- A call that has passed the first entries of `m_Clients`, and has called `OnDisconnect`
with the dead ones among the first `told`. -/
structure Passed (s : DedicatedServer) (m : Message) (ignored : Option Nat) (r : Reentrant)
    (n told : Nat) : Prop where
  clients : r.server.clients = marked s n
  posts : ∀ x, (r.server.objects x).sent.count m =
    (s.objects x).sent.count m + listed s ignored n x
  connected : ∀ x, r.server.isConnected x = s.isConnected x
  log : r.server.log = s.log ++ notices (s.deads told)

/-- A run in which the override has made no inner call, with a bound on the steps that are
left. -/
inductive Plain (o : Override) (s : DedicatedServer) (t : Thread) (m : Message)
    (ignored : Option Nat) (r : Reentrant) : Nat → Prop
  | loop {n : Nat} {clientsRemoved : Bool} (hBound : n ≤ s.clients.length)
      (hTasks : r.server.tasks t =
        .messageAll m ignored n s.clients.length clientsRemoved :: s.tasks t)
      (hViews : r.views = []) (hPassed : Passed s m ignored r n n) (hQuiet : Quiet o s n)
      (hRemoved : clientsRemoved = false → s.deads n = []) :
      Plain o s t m ignored r (4 * (s.clients.length - n) + 1)
  | called {n : Nat} {q : Option Nat} (hEntry : s.clients[n]? = some q) (hDead : s.alive q = false)
      (hTasks : r.server.tasks t = .callback (.onDisconnect q) :: .reset n q ::
        .messageAll m ignored (n + 1) s.clients.length true :: s.tasks t)
      (hViews : r.views = [[]])
      (hPassed : Passed s m ignored r n (n + 1)) (hQuiet : Quiet o s n) :
      Plain o s t m ignored r (4 * (s.clients.length - n))
  | reset {n : Nat} {q : Option Nat} (hEntry : s.clients[n]? = some q) (hDead : s.alive q = false)
      (hTasks : r.server.tasks t = .reset n q ::
        .messageAll m ignored (n + 1) s.clients.length true :: s.tasks t)
      (hViews : r.views = []) (hPassed : Passed s m ignored r n (n + 1)) (hQuiet : Quiet o s (n + 1)) :
      Plain o s t m ignored r (4 * (s.clients.length - n) - 1)
  | returned (hDone : Done s t m ignored r) (hViews : r.views = []) (hQuiet : Quiet o s s.clients.length) :
      Plain o s t m ignored r 0

/-- A run in which an inner call is running and none has returned. -/
inductive Deep (s : DedicatedServer) (t : Thread) (r : Reentrant) : Prop
  | loop {m : Message} {ignored : Option Nat} {n : Nat} {clientsRemoved : Bool} {low : List Task}
      (hTasks : r.server.tasks t = .messageAll m ignored n s.clients.length clientsRemoved :: low)
      (hLow : (s.tasks t).length < low.length)
      (hLive : r.server.clients.map r.server.alive = s.clients.map s.alive)
      (hLog : s.log.length + (s.deads n).length < r.server.log.length)
  | called {m : Message} {ignored : Option Nat} {n : Nat} {q : Option Nat} {low : List Task}
      (hDead : (s.clients.map s.alive)[n]? = some false)
      (hTasks : r.server.tasks t = .callback (.onDisconnect q) :: .reset n q ::
        .messageAll m ignored (n + 1) s.clients.length true :: low)
      (hLow : (s.tasks t).length < low.length)
      (hLive : r.server.clients.map r.server.alive = s.clients.map s.alive)
      (hLog : s.log.length + (s.deads (n + 1)).length < r.server.log.length)
  | reset {m : Message} {ignored : Option Nat} {n : Nat} {q : Option Nat} {low : List Task}
      (hDead : (s.clients.map s.alive)[n]? = some false)
      (hTasks : r.server.tasks t = .reset n q ::
        .messageAll m ignored (n + 1) s.clients.length true :: low)
      (hLow : (s.tasks t).length < low.length)
      (hLive : r.server.clients.map r.server.alive = s.clients.map s.alive)
      (hLog : s.log.length + (s.deads (n + 1)).length < r.server.log.length)

/-- `OnDisconnect` has been called more often than there are dead entries. -/
def Excess (s : DedicatedServer) (r : Reentrant) : Prop :=
  s.log.length + (s.deads s.clients.length).length < r.server.log.length

section

variable {s : DedicatedServer} {m : Message} {ignored : Option Nat} {k : Nat}

theorem alive_congr {s' : DedicatedServer} (h : ∀ x, s'.isConnected x = s.isConnected x) :
    s'.alive = s.alive := by
  funext q
  cases q with
  | none => rfl
  | some x => exact h x

theorem exists_of_alive {q : Option Nat} (h : s.alive q = true) :
    ∃ x, q = some x ∧ s.isConnected x = true := by
  cases q with
  | none => cases h
  | some x => exact ⟨x, rfl, h⟩

/-- Behind the call the application is at work, and no step is left to this thread. -/
theorem step_returned (hApplication : s.inApplication t = true) (hTasks : r.server.tasks t = s.tasks t)
    (hViews : r.views = []) : r.step o t = none := by
  rw [inApplication] at hApplication
  split at hApplication
  · rename_i c rest hCallback
    rw [hCallback] at hTasks
    cases c <;> simp [step, hTasks, hViews, DedicatedServer.step]
  · rename_i hNone
    rw [hNone] at hTasks
    simp [step, hTasks, DedicatedServer.step]
  · cases hApplication

/-- An iteration at a live entry. -/
theorem Plain.serve {n : Nat} {clientsRemoved : Bool} {x : Nat}
    (hBound : n < s.clients.length) (hEntry : s.clients[n]? = some (some x))
    (hConnected : s.isConnected x = true)
    (hTasks : r.server.tasks t =
      .messageAll m ignored n s.clients.length clientsRemoved :: s.tasks t)
    (hViews : r.views = []) (hPassed : Passed s m ignored r n n) (hQuiet : Quiet o s n)
    (hRemoved : clientsRemoved = false → s.deads n = []) :
    ∃ r', r.step o t = some r' ∧
      Plain o s t m ignored r' (4 * (s.clients.length - (n + 1)) + 1) := by
  have hAlive : s.alive (some x) = true := hConnected
  have hDeads : s.deads (n + 1) = s.deads n := by
    rw [deads_succ hEntry, hAlive]
    simp
  have hQuiet' : Quiet o s (n + 1) := by rwa [Quiet, hDeads]
  obtain ⟨hTasks', hClients, hLog⟩ := served_frame (t := t) r.server x m ignored
    (.messageAll m ignored (n + 1) s.clients.length clientsRemoved :: s.tasks t)
  refine ⟨_, step_serve hBound.ne hTasks (hPassed.clients ▸ marked_getElem hEntry)
    ((hPassed.connected x).trans hConnected), .loop hBound hTasks' hViews ⟨?_, fun y => ?_,
      fun y => ?_, ?_⟩ hQuiet' (by rwa [hDeads])⟩
  · rw [hClients, hPassed.clients, marked_succ hEntry, if_pos hAlive]
  · rw [served_sent, hPassed.posts, listed_succ hEntry, hAlive, Nat.add_assoc]
    refine congrArg _ (congrArg _ ?_)
    by_cases hIgnored : some x = ignored
    · simp [hIgnored]
    · simp [hIgnored]
  · rw [served_isConnected]
    exact hPassed.connected y
  · rw [hLog, hDeads]
    exact hPassed.log

theorem notices_concat (ps : List (Option Nat)) (q : Option Nat) :
    notices (ps ++ [q]) = notices ps ++ [.call (.onDisconnect q)] := List.map_append

/-- An iteration at a dead entry. -/
theorem Plain.call {n : Nat} {clientsRemoved : Bool} {q : Option Nat}
    (hBound : n < s.clients.length) (hEntry : s.clients[n]? = some q) (hDead : s.alive q = false)
    (hTasks : r.server.tasks t =
      .messageAll m ignored n s.clients.length clientsRemoved :: s.tasks t)
    (hViews : r.views = []) (hPassed : Passed s m ignored r n n) (hQuiet : Quiet o s n) :
    ∃ r', r.step o t = some r' ∧ Plain o s t m ignored r' (4 * (s.clients.length - n)) := by
  have hLog : r.server.log ++ [.call (.onDisconnect q)] = s.log ++ notices (s.deads (n + 1)) := by
    rw [hPassed.log, deads_succ hEntry, hDead, if_neg (by simp), notices_concat, List.append_assoc]
  refine ⟨_, step_dead hBound.ne hTasks (hPassed.clients ▸ marked_getElem hEntry)
    ((congrFun (alive_congr hPassed.connected) q).trans hDead), .called hEntry hDead ?_ ?_
      ⟨hPassed.clients, hPassed.posts, hPassed.connected, hLog⟩ hQuiet⟩
  · simp [DedicatedServer.call, setTasks]
  · rw [hViews]

/-- The entry of which `OnDisconnect` has been told is reset. -/
theorem Plain.forget {n : Nat} {q : Option Nat} (hEntry : s.clients[n]? = some q)
    (hDead : s.alive q = false)
    (hTasks : r.server.tasks t = .reset n q ::
      .messageAll m ignored (n + 1) s.clients.length true :: s.tasks t)
    (hViews : r.views = []) (hPassed : Passed s m ignored r n (n + 1)) (hQuiet : Quiet o s (n + 1)) :
    ∃ r', r.step o t = some r' ∧
      Plain o s t m ignored r' (4 * (s.clients.length - (n + 1)) + 1) := by
  have hBound := (List.getElem?_eq_some_iff.mp hEntry).1
  have hHere : n < r.server.clients.length := by
    rw [hPassed.clients, marked_length]
    exact hBound
  have hNext : (r.server.setTasks t (.messageAll m ignored (n + 1) s.clients.length true ::
      s.tasks t)).tasks t = .messageAll m ignored (n + 1) s.clients.length true :: s.tasks t :=
    Function.update_self ..
  refine ⟨_, step_reset hTasks hHere, .loop hBound hNext hViews ⟨?_, fun x => ?_,
    hPassed.connected, hPassed.log⟩ hQuiet fun hNot => by cases hNot⟩
  · rw [marked_succ hEntry, if_neg (by simp [hDead]), ← hPassed.clients]
  · rw [listed_succ hEntry, hDead]
    exact hPassed.posts x

/-- The override makes no call at the next dead entry either. -/
theorem Quiet.succ {n : Nat} {q : Option Nat} (h : Quiet o s n) (hEntry : s.clients[n]? = some q)
    (hDead : s.alive q = false) (hNone : o [s.log ++ notices (s.deads (n + 1))] = none) :
    Quiet o s (n + 1) := by
  intro ps hSome hPrefix
  have hSplit := deads_succ hEntry
  rw [hDead, if_neg (by simp)] at hSplit
  rw [hSplit, List.prefix_concat_iff] at hPrefix
  rcases hPrefix with rfl | hBefore
  · rw [← hSplit]
    exact hNone
  · exact h ps hSome hBefore

/-- An inner call finds the entries as the outer one has found them. -/
theorem Deep.start {n : Nat} {q : Option Nat} {m' : Message} {ignored' : Option Nat}
    {low : List Task}
    (hEntry : s.clients[n]? = some q) (hDead : s.alive q = false)
    (hTasks : r.server.tasks t = .callback (.onDisconnect q) :: low)
    (hLow : (s.tasks t).length ≤ low.length) (hViews : r.views = [[]])
    (hCalls : o [r.server.log] = some (m', ignored'))
    (hPassed : Passed s m ignored r n (n + 1)) (hStep : r.step o t = some r') : Deep s t r' := by
  have hLength : r.server.clients.length = s.clients.length := by
    rw [hPassed.clients, marked_length]
  obtain rfl := step_nested hTasks hViews hCalls hStep
  have hNext : (r.server.setTasks t (.messageAll m' ignored' 0 r.server.clients.length false ::
      r.server.tasks t)).tasks t =
        .messageAll m' ignored' 0 s.clients.length false :: r.server.tasks t := by
    simp [setTasks, hLength]
  refine .loop hNext ?_ ?_ ?_
  · rw [hTasks, List.length_cons]
    omega
  · change r.server.clients.map r.server.alive = _
    rw [alive_congr hPassed.connected, hPassed.clients, marked_alive]
  · change _ < r.server.log.length
    rw [hPassed.log, deads_zero, deads_succ hEntry, hDead]
    simp [notices]

/-- **A step of a call without inner calls**: it has returned, it goes on, or the override
makes an inner call. -/
theorem Plain.step (h : Plain o s t m ignored r k) :
    (Done s t m ignored r ∧ r.views = [] ∧ Quiet o s s.clients.length) ∨
      (∃ r' k', r.step o t = some r' ∧ Plain o s t m ignored r' k' ∧ k' < k) ∨
        ¬ Quiet o s s.clients.length ∧ ∀ r', r.step o t = some r' → Deep s t r' := by
  cases h with
  | @loop n clientsRemoved hBound hTasks hViews hPassed hQuiet hRemoved =>
    right
    left
    rcases hBound.eq_or_lt with rfl | hMore
    · refine ⟨_, 0, step_end hTasks, .returned ⟨?_, ?_, fun x => ?_, ?_⟩ hViews hQuiet,
        Nat.succ_pos _⟩
      · split <;> simp [setTasks]
      · rw [← hPassed.log]
        split <;> rfl
      · rw [← listed_all, ← hPassed.posts x]
        split <;> rfl
      · rw [← marked_all clientsRemoved hRemoved, ← hPassed.clients]
        split <;> rfl
    · have hEntry : s.clients[n]? = some s.clients[n] := List.getElem?_eq_getElem hMore
      cases hAlive : s.alive s.clients[n] with
      | true =>
        obtain ⟨x, hx, hConnected⟩ := exists_of_alive hAlive
        rw [hx] at hEntry
        obtain ⟨r', hStep, hNext⟩ :=
          Plain.serve hMore hEntry hConnected hTasks hViews hPassed hQuiet hRemoved
        exact ⟨r', _, hStep, hNext, by omega⟩
      | false =>
        obtain ⟨r', hStep, hNext⟩ := Plain.call hMore hEntry hAlive hTasks hViews hPassed hQuiet
        exact ⟨r', _, hStep, hNext, by omega⟩
  | @called n q hEntry hDead hTasks hViews hPassed hQuiet =>
    right
    have hBound := (List.getElem?_eq_some_iff.mp hEntry).1
    cases hCalls : o [r.server.log] with
    | none =>
      left
      rw [hPassed.log] at hCalls
      refine ⟨_, _, step_leave hTasks hViews (hPassed.log ▸ hCalls), .reset hEntry hDead ?_ rfl
        ⟨hPassed.clients, hPassed.posts, hPassed.connected, hPassed.log⟩
          (hQuiet.succ hEntry hDead hCalls), by omega⟩
      simp [setTasks]
    | some c =>
      right
      refine ⟨fun hAll => ?_, fun r' hStep => ?_⟩
      · have hSome : s.deads (n + 1) ≠ [] := by
          rw [deads_succ hEntry, hDead]
          simp
        rw [hPassed.log, hAll _ hSome deads_prefix] at hCalls
        cases hCalls
      · refine Deep.start hEntry hDead hTasks ?_ hViews hCalls hPassed hStep
        simp only [List.length_cons]
        omega
  | @reset n q hEntry hDead hTasks hViews hPassed hQuiet =>
    have hBound := (List.getElem?_eq_some_iff.mp hEntry).1
    obtain ⟨r', hStep, hNext⟩ := Plain.forget hEntry hDead hTasks hViews hPassed hQuiet
    exact .inr (.inl ⟨r', _, hStep, hNext, by omega⟩)
  | returned hDone hViews hQuiet =>
    exact .inl ⟨hDone, hViews, hQuiet⟩

end

/-! ## Inner calls -/

section

variable {s : DedicatedServer}

/-- No task takes back what the application has seen. -/
theorem log_run {s' : DedicatedServer} (h : s.step (.run t) = some s') : s.log <+: s'.log := by
  cases step_cases h with
  | @resume x effects rest => exact (log_advance (s.setTasks .context rest) x effects).1
  | erase => exact List.prefix_rfl
  | iterate _ hIterate =>
    cases iterate_cases hIterate with
    | finish | next => split <;> exact List.prefix_rfl
    | remove => exact List.prefix_append _ _
  | reset => exact List.prefix_rfl
  | release => exact List.prefix_rfl

theorem log_step (h : r.step o t = some r') : r.server.log.length ≤ r'.server.log.length := by
  simp only [step] at h
  split at h
  · split at h
    · simp only [Option.map_eq_some_iff] at h
      obtain ⟨s', hApp, rfl⟩ := h
      cases step_cases hApp with
      | app _ hAct =>
        cases act_cases hAct with
        | messageAll => exact Nat.le_refl _
    · simp only [Option.map_eq_some_iff] at h
      obtain ⟨s', hLeave, rfl⟩ := h
      cases step_cases hLeave with
      | leave => exact Nat.le_refl _
  · simp only [Option.map_eq_some_iff] at h
    obtain ⟨s', hRun, rfl⟩ := h
    exact (log_run hRun).length_le

theorem Excess.step (h : Excess s r) (hStep : r.step o t = some r') : Excess s r' :=
  Nat.lt_of_lt_of_le h (log_step hStep)

theorem alive_getElem {clients : List (Option Nat)} {p : Option Nat → Bool} {n : Nat}
    {q : Option Nat} (hLive : clients.map p = s.clients.map s.alive) (hEntry : clients[n]? = some q) :
    ∃ q', s.clients[n]? = some q' ∧ s.alive q' = p q := by
  have hHere : (s.clients.map s.alive)[n]? = some (p q) := by
    rw [← hLive, List.getElem?_map, hEntry]
    rfl
  rw [List.getElem?_map, Option.map_eq_some_iff] at hHere
  exact hHere

/-- **A step of an inner call**: when it returns, `OnDisconnect` has been called too often. -/
theorem Deep.step (h : Deep s t r) (hStep : r.step o t = some r') : Deep s t r' ∨ Excess s r' := by
  cases h with
  | @loop m ignored n clientsRemoved low hTasks hLow hLive hLog =>
    by_cases hEnd : n = s.clients.length
    · subst hEnd
      rw [step_end hTasks] at hStep
      cases hStep
      right
      change _ < List.length _
      split <;> exact hLog
    · cases hEntry : r.server.clients[n]? with
      | none =>
        rw [step_past hEnd hTasks hEntry] at hStep
        cases hStep
      | some q =>
        left
        obtain ⟨q', hEntry', hSame⟩ := alive_getElem hLive hEntry
        cases hAlive : r.server.alive q with
        | true =>
          obtain ⟨x, rfl, hConnected⟩ := exists_of_alive hAlive
          rw [step_serve hEnd hTasks hEntry hConnected] at hStep
          cases hStep
          have hDeads : s.deads (n + 1) = s.deads n := by
            rw [deads_succ hEntry', hSame, hAlive]
            simp
          obtain ⟨hTasks', hClients, hLog'⟩ := served_frame (t := t) r.server x m ignored
            (.messageAll m ignored (n + 1) s.clients.length clientsRemoved :: low)
          refine .loop hTasks' hLow ?_ ?_
          · rw [alive_congr (served_isConnected _ _ _ _ _), hClients]
            exact hLive
          · rw [hDeads, hLog']
            exact hLog
        | false =>
          rw [step_dead hEnd hTasks hEntry hAlive] at hStep
          cases hStep
          have hTasks' : (r.server.setTasks t low |>.call t (.onDisconnect q)
              [.reset n q, .messageAll m ignored (n + 1) s.clients.length true]).tasks t =
                .callback (.onDisconnect q) :: .reset n q ::
                  .messageAll m ignored (n + 1) s.clients.length true :: low := by
            simp [DedicatedServer.call, setTasks]
          refine .called ?_ hTasks' hLow hLive ?_
          · rw [List.getElem?_map, hEntry', Option.map_some, hSame, hAlive]
          · change _ < (r.server.log ++ [_]).length
            rw [deads_succ hEntry', hSame, hAlive, if_neg (by simp), List.length_append,
              List.length_append]
            simp only [List.length_singleton]
            omega
  | @called m ignored n q low hDead hTasks hLow hLive hLog =>
    left
    have hLength : r.server.clients.length = s.clients.length := by
      simpa using congrArg List.length hLive
    cases hViews : r.views with
    | nil =>
      rw [step_idle hTasks hViews] at hStep
      cases hStep
    | cons view views =>
      cases hCalls : o (view ++ [r.server.log]) with
      | none =>
        rw [step_leave hTasks hViews hCalls] at hStep
        cases hStep
        have hTasks' : (r.server.setTasks t (.reset n q ::
            .messageAll m ignored (n + 1) s.clients.length true :: low)).tasks t = _ :=
          Function.update_self ..
        exact .reset hDead hTasks' hLow hLive hLog
      | some c =>
        obtain rfl := step_nested hTasks hViews hCalls hStep
        have hTasks' : (r.server.setTasks t (.messageAll c.1 c.2 0 r.server.clients.length false ::
            r.server.tasks t)).tasks t =
              .messageAll c.1 c.2 0 s.clients.length false :: r.server.tasks t := by
          simp [setTasks, hLength]
        refine .loop hTasks' ?_ hLive ?_
        · rw [hTasks]
          simp only [List.length_cons]
          omega
        · rw [deads_zero]
          exact Nat.lt_of_le_of_lt (Nat.add_le_add_left (Nat.zero_le _) _) hLog
  | @reset m ignored n q low hDead hTasks hLow hLive hLog =>
    left
    have hBound : n < r.server.clients.length := by
      have hHere := (List.getElem?_eq_some_iff.mp (hLive ▸ hDead)).1
      simpa using hHere
    rw [step_reset hTasks hBound] at hStep
    cases hStep
    have hTasks' : (r.server.setTasks t (.messageAll m ignored (n + 1) s.clients.length true ::
        low)).tasks t = _ := Function.update_self ..
    refine .loop hTasks' hLow ?_ hLog
    -- the entry that is reset was dead
    change (r.server.clients.set n none).map r.server.alive = _
    rw [List.map_set, hLive]
    refine List.ext_getElem? fun i => ?_
    rw [List.getElem?_set]
    split
    · rename_i hHere
      subst hHere
      rw [hDead]
      have hShort := (List.getElem?_eq_some_iff.mp hDead).1
      rw [if_pos hShort]
      rfl
    · rfl

/-! ## The whole call -/

variable {m : Message} {ignored : Option Nat} {k : Nat}

theorem Plain.start {s₀ : DedicatedServer}
    (hCall : s.step (.app t (.messageAll m ignored)) = some s₀) :
    Plain o s t m ignored ⟨s₀, []⟩ (4 * s.clients.length + 1) := by
  cases step_cases hCall with
  | app _ hAct =>
    cases act_cases hAct with
    | messageAll =>
      have hTasks : (s.setTasks t (.messageAll m ignored 0 s.clients.length false ::
          s.tasks t)).tasks t = _ := Function.update_self ..
      refine .loop (Nat.zero_le _) hTasks rfl ⟨rfl, fun x => rfl, fun x => rfl, ?_⟩ ?_ fun _ => rfl
      · exact (List.append_nil _).symm
      · intro ps hSome hPrefix
        exact absurd (List.prefix_nil.mp hPrefix) hSome

/-- A call in which the override makes no inner call comes to its end. -/
theorem Plain.completes (h : Plain o s t m ignored r k) (hQuiet : Quiet o s s.clients.length) :
    ∃ r', Runs o t r r' ∧ Done s t m ignored r' := by
  induction k using Nat.strongRecOn generalizing r with
  | ind k ih =>
    rcases h.step with ⟨hDone, -⟩ | ⟨r₁, k', hStep, hNext, hLess⟩ | ⟨hNot, -⟩
    · exact ⟨r, .refl, hDone⟩
    · obtain ⟨r', hRuns, hDone⟩ := ih k' hLess hNext
      exact ⟨r', .head hStep hRuns, hDone⟩
    · exact absurd hQuiet hNot

/-- Every state of a run is one of a call without inner calls, of an inner call, or comes
after an inner call that has returned. -/
theorem states_of_runs (hApplication : s.inApplication t = true) (h : Plain o s t m ignored r k)
    (hRuns : Runs o t r r') : (∃ k', Plain o s t m ignored r' k') ∨ Deep s t r' ∨ Excess s r' := by
  induction hRuns with
  | refl => exact .inl ⟨k, h⟩
  | @tail r₁ r₂ _ hStep ih =>
    rcases ih with ⟨k', hPlain⟩ | hDeep | hExcess
    · rcases hPlain.step with ⟨hDone, hViews, -⟩ | ⟨r₃, k'', hThis, hNext, -⟩ | ⟨-, hInner⟩
      · rw [step_returned hApplication hDone.returned hViews] at hStep
        cases hStep
      · rw [hThis] at hStep
        cases hStep
        exact .inl ⟨k'', hNext⟩
      · exact .inr (.inl (hInner r₂ hStep))
    · exact .inr (hDeep.step hStep)
    · exact .inr (.inr (hExcess.step hStep))

/-- A call that does what it is for has made no inner call. -/
theorem Survives.quiet (hApplication : s.inApplication t = true)
    (h : Survives o s t m ignored) : Quiet o s s.clients.length := by
  obtain ⟨s₀, r, hCall, hRuns, hDone⟩ := h
  have hReturned := congrArg List.length hDone.returned
  rcases states_of_runs hApplication (Plain.start hCall) hRuns with ⟨k, hPlain⟩ | hDeep | hExcess
  · rcases hPlain with ⟨-, hTasks⟩ | ⟨-, -, hTasks⟩ | ⟨-, -, hTasks⟩ | ⟨-, -, hQuiet⟩
    · rw [hTasks, List.length_cons] at hReturned
      omega
    · simp only [hTasks, List.length_cons] at hReturned
      omega
    · simp only [hTasks, List.length_cons] at hReturned
      omega
    · exact hQuiet
  · rcases hDeep with ⟨hTasks, hLow⟩ | ⟨-, hTasks, hLow⟩ | ⟨-, hTasks, hLow⟩
    all_goals
      simp only [hTasks, List.length_cons] at hReturned
      omega
  · rw [Excess, hDone.log, List.length_append, notices, List.length_map] at hExcess
    omega

/-- **`MessageAll` does what it is for exactly when `OnDisconnect` calls it at none of the dead
entries.** -/
theorem survives_iff (hApplication : s.inApplication t = true)
    (hIgnored : ∀ x ∈ ignored, x ∈ s.owners) :
    Survives o s t m ignored ↔ Quiet o s s.clients.length := by
  refine ⟨fun hSurvives => hSurvives.quiet hApplication, fun hQuiet => ?_⟩
  have hCall : s.step (.app t (.messageAll m ignored)) = some
      (s.setTasks t (.messageAll m ignored 0 s.clients.length false :: s.tasks t)) := by
    simp only [DedicatedServer.step, hApplication, act, if_true, if_pos hIgnored]
  obtain ⟨r, hRuns, hDone⟩ := (Plain.start (o := o) hCall).completes hQuiet
  exact ⟨_, r, hCall, hRuns, hDone⟩

/-! ## A departure that is announced -/

/-- The first client has closed its connection, the second has not. -/
def oneClosed : DedicatedServer where
  objects x := Endpoint.create .dedicatedServer (x != 0)
  allocated := 2
  clients := [some 0, some 1]

/-- `OnDisconnect` announces the departure of any client but the first. -/
def announceOthers : Override := fun views =>
  if views = [notices [some 0]] then none
  else if views.length = 1 then some ({}, none) else none

theorem survives_announceOthers : Survives announceOthers oneClosed .polling {} none ∧
    oneClosed.lives = [some 1] ∧ announceOthers [notices [some 1]] = some ({}, none) := by
  refine ⟨(survives_iff (by decide) (by simp)).mpr fun ps hSome hPrefix => ?_, by decide, by decide⟩
  -- the only dead entry is that of the first client
  have hDeads : oneClosed.deads oneClosed.clients.length = [some 0] := by decide
  rw [hDeads] at hPrefix
  obtain rfl | ⟨rest, rfl, hRest⟩ := List.prefix_cons_iff.mp hPrefix
  · exact absurd rfl hSome
  · obtain rfl := List.prefix_nil.mp hRest
    rfl

/-- `OnDisconnect` announces the departure to everybody. -/
def announce : Override := fun views => if views.length = 1 then some ({}, none) else none

/-- The state after some steps. -/
def steps (o : Override) (t : Thread) : Nat → Reentrant → Option Reentrant
  | 0, r => some r
  | n + 1, r => (r.step o t).bind (steps o t n)

theorem runs_of_steps {n : Nat} (h : steps o t n r = some r') : Runs o t r r' := by
  induction n generalizing r with
  | zero =>
    cases h
    exact .refl
  | succ n ih =>
    obtain ⟨r₁, hStep, hRest⟩ := Option.bind_eq_some_iff.mp h
    exact .head hStep (ih hRest)

/-- **The announcement calls `OnDisconnect` a second time for the same entry.** -/
theorem announced_twice : ∃ s₀ r, oneClosed.step (.app .polling (.messageAll {} none)) = some s₀ ∧
    Runs announce .polling ⟨s₀, []⟩ r ∧ r.server.log = notices [some 0, some 0] ∧
      ¬ Survives announce oneClosed .polling {} none := by
  have hRun : ((oneClosed.step (.app .polling (.messageAll {} none))).bind fun s₀ =>
      steps announce .polling 3 ⟨s₀, []⟩).any
        (fun r => r.server.log == notices [some 0, some 0]) = true := by decide
  obtain ⟨r, hr, hLog⟩ := (Option.any_eq_true _ _).mp hRun
  obtain ⟨s₀, hCall, hSteps⟩ := Option.bind_eq_some_iff.mp hr
  refine ⟨s₀, r, hCall, runs_of_steps hSteps, beq_iff_eq.mp hLog, fun hSurvives => ?_⟩
  have hNone := hSurvives.quiet (by decide) [some 0] (by simp) ⟨[], by decide⟩
  cases hNone

end

end Reentrant

end MinecraftNetwork
