import MinecraftNetwork.Foundations.LockOrder
import MinecraftNetwork.TSDeque.Basic

/-!
# The two mutexes of `TSDeque`

Any number of threads runs any operations on one deque. `Owned` says where in its
operation a thread holds `m_DequeMutex` and where `m_ContidionMutex`; every step keeps it
(`owned_step`). It gives the lock order: the pushes take `m_ContidionMutex` under
`m_DequeMutex`, and no operation takes `m_DequeMutex` under `m_ContidionMutex`, not even
`Wait`, which gives the condition mutex back before it calls `Empty()` again, and holds no
mutex when a wakeup makes it acquire `m_ContidionMutex` (`ordered`).

A thread that waits for no held mutex, and is inside an operation because it holds one or
waits for one, can step (`canStep_of_unblocked`). The main theorem `deadlockFree_of_reach`
puts the two together.
-/

namespace MinecraftNetwork.TSDeque

open Runs Locking Relation

/-- `m_DequeMutex` and `m_ContidionMutex`. -/
inductive Mutex
  | deque
  | condition
  deriving DecidableEq

/-- The order in which an operation takes the mutexes. -/
def Mutex.rank : Mutex → Fin 2
  | .deque => 0
  | .condition => 1

/-! ## Critical sections -/

namespace Pc

variable {α : Type}

/-- A place under `m_DequeMutex`. -/
def underDeque : Pc α → Prop
  | .access _ | .lockCondition _ _ | .notify _ _ | .unlockCondition _ _ | .unlockDeque _ _
  | .waitUnlockDeque _ => True
  | _ => False

/-- A place under `m_ContidionMutex`. -/
def underCondition : Pc α → Prop
  | .notify _ _ | .unlockCondition _ _ | .stopSet | .stopNotify | .stopUnlock | .waitSleep
  | .waitUnlockCondition => True
  | _ => False

def under (p : Pc α) : Mutex → Prop
  | .deque => p.underDeque
  | .condition => p.underCondition

end Pc

variable {α τ : Type}

/-- The thread that holds a mutex. -/
def State.owner (s : State α τ) : Mutex → Option τ
  | .deque => s.dequeOwner
  | .condition => s.conditionOwner

/-- The mutex that a thread is about to acquire. A thread that sleeps in
`m_Contidion.wait` acquires nothing before it is woken. -/
def State.wants (s : State α τ) (t : τ) (m : Mutex) : Prop :=
  match s.pc t with
  | .lockDeque _ => m = .deque
  | .lockCondition _ _ | .stopLock | .waitLockCondition => m = .condition
  | .waitAsleep => t ∉ s.waiters ∧ m = .condition
  | _ => False

instance [DecidableEq τ] (s : State α τ) (t : τ) (m : Mutex) : Decidable (s.wants t m) := by
  unfold State.wants
  cases s.pc t <;> infer_instance

/-- The mutexes held and waited for in a state. -/
def State.locks (s : State α τ) : Snapshot τ Mutex where
  holds t m := s.owner m = some t
  wants := s.wants

/-- The mutexes are held where the source has a lock in scope. -/
structure Owned (s : State α τ) : Prop where
  deque : Guards s.dequeOwner s.pc Pc.underDeque
  condition : Guards s.conditionOwner s.pc Pc.underCondition

theorem owned_init {s : State α τ} (h : s.Quiet) : Owned s := by
  obtain ⟨hDeque, hCondition, -, hPc⟩ := h
  refine ⟨?_, ?_⟩
  · rw [hDeque]
    exact Guards.of_outside fun t => by simp [hPc, Pc.underDeque]
  · rw [hCondition]
    exact Guards.of_outside fun t => by simp [hPc, Pc.underCondition]

variable [DecidableEq τ]

/-- A thread moves between two places under the same mutexes. -/
theorem Owned.move {s s' : State α τ} {t : τ} {p : Pc α} (h : Owned s)
    (hPc : s'.pc = Function.update s.pc t p) (hDeque : s'.dequeOwner = s.dequeOwner)
    (hCondition : s'.conditionOwner = s.conditionOwner)
    (hUnderDeque : p.underDeque ↔ (s.pc t).underDeque)
    (hUnderCondition : p.underCondition ↔ (s.pc t).underCondition) : Owned s' := by
  refine ⟨?_, ?_⟩
  · rw [hPc, hDeque]
    exact h.deque.move hUnderDeque
  · rw [hPc, hCondition]
    exact h.condition.move hUnderCondition

theorem Owned.acquireDeque {s s' : State α τ} {t : τ} {p : Pc α} (h : Owned s)
    (hStep : s.acquireDeque t p = some s') (hUnder : p.underDeque)
    (hSame : p.underCondition ↔ (s.pc t).underCondition) : Owned s' := by
  simp only [State.acquireDeque, Option.ite_none_right_eq_some, Option.some.injEq] at hStep
  obtain ⟨hFree, rfl⟩ := hStep
  have hDeque := h.deque
  rw [hFree] at hDeque
  exact ⟨hDeque.acquire hUnder, h.condition.move hSame⟩

theorem Owned.acquireCondition {s s' : State α τ} {t : τ} {p : Pc α} (h : Owned s)
    (hStep : s.acquireCondition t p = some s') (hUnder : p.underCondition)
    (hSame : p.underDeque ↔ (s.pc t).underDeque) : Owned s' := by
  simp only [State.acquireCondition, Option.ite_none_right_eq_some, Option.some.injEq] at hStep
  obtain ⟨hFree, rfl⟩ := hStep
  have hCondition := h.condition
  rw [hFree] at hCondition
  exact ⟨h.deque.move hSame, hCondition.acquire hUnder⟩

theorem Owned.releaseDeque {s : State α τ} {t : τ} {p : Pc α} (h : Owned s)
    (hWas : (s.pc t).underDeque) (hOut : ¬ p.underDeque)
    (hSame : p.underCondition ↔ (s.pc t).underCondition) : Owned (s.releaseDeque t p) :=
  ⟨h.deque.release hWas hOut, h.condition.move hSame⟩

theorem Owned.releaseCondition {s : State α τ} {t : τ} {p : Pc α} (h : Owned s)
    (hWas : (s.pc t).underCondition) (hOut : ¬ p.underCondition)
    (hSame : p.underDeque ↔ (s.pc t).underDeque) : Owned (s.releaseCondition t p) :=
  ⟨h.deque.move hSame, h.condition.release hWas hOut⟩

omit [DecidableEq τ] in
/-- The wait set plays no part in who holds a mutex. -/
theorem Owned.waiters {s : State α τ} (h : Owned s) (waiters : List τ) :
    Owned { s with waiters := waiters } :=
  ⟨h.deque, h.condition⟩

/-- A step of a thread that does not notify. One case for each place of the source. -/
theorem owned_advance {s s' : State α τ} {t : τ} (h : Owned s)
    (hStep : s.advance t = some s') : Owned s' := by
  unfold State.advance at hStep
  cases hPc : s.pc t with
  | outside | notify | stopNotify => simp [hPc] at hStep
  | lockDeque c =>
    simp only [hPc] at hStep
    exact h.acquireDeque hStep trivial (by simp [hPc, Pc.underCondition])
  | access c =>
    simp only [hPc, Option.some.injEq] at hStep
    subst hStep
    refine h.move (t := t) rfl rfl rfl ?_ ?_
    -- every place after the access is still under the deque mutex alone
    all_goals cases c <;> simp [hPc, Pc.underDeque, Pc.underCondition, Call.pushes]
  | lockCondition c r =>
    simp only [hPc] at hStep
    exact h.acquireCondition hStep trivial (by simp [hPc, Pc.underDeque])
  | unlockCondition c r =>
    simp only [hPc, Option.some.injEq] at hStep
    subst hStep
    exact h.releaseCondition (by rw [hPc]; trivial) id (by simp [hPc, Pc.underDeque])
  | unlockDeque c r =>
    simp only [hPc, Option.some.injEq] at hStep
    subst hStep
    exact h.releaseDeque (by rw [hPc]; trivial) id (by simp [hPc, Pc.underCondition])
  | stopLock =>
    simp only [hPc] at hStep
    exact h.acquireCondition hStep trivial (by simp [hPc, Pc.underDeque])
  | stopSet =>
    simp only [hPc, Option.some.injEq] at hStep
    subst hStep
    refine h.move (t := t) rfl rfl rfl ?_ ?_
    all_goals simp [hPc, Pc.underDeque, Pc.underCondition]
  | stopUnlock =>
    simp only [hPc, Option.some.injEq] at hStep
    subst hStep
    exact h.releaseCondition (by rw [hPc]; trivial) id (by simp [hPc, Pc.underDeque])
  | waitUnlockDeque isEmpty =>
    simp only [hPc, Option.some.injEq] at hStep
    subst hStep
    apply h.releaseDeque (by rw [hPc]; trivial)
    all_goals cases isEmpty <;> simp [hPc, Pc.underDeque, Pc.underCondition]
  | waitTestStop =>
    simp only [hPc, Option.some.injEq] at hStep
    subst hStep
    refine h.move (t := t) rfl rfl rfl ?_ ?_
    all_goals cases s.stopWaiting <;> simp [hPc, Pc.underDeque, Pc.underCondition]
  | waitLockCondition =>
    simp only [hPc] at hStep
    exact h.acquireCondition hStep trivial (by simp [hPc, Pc.underDeque])
  | waitSleep =>
    -- the condition wait gives the mutex back
    simp only [hPc, Option.some.injEq] at hStep
    subst hStep
    apply Owned.waiters
    exact h.releaseCondition (by rw [hPc]; trivial) id (by simp [hPc, Pc.underDeque])
  | waitAsleep =>
    -- and the woken thread takes it again
    simp only [hPc] at hStep
    split at hStep
    · cases hStep
    · exact h.acquireCondition hStep trivial (by simp [hPc, Pc.underDeque])
  | waitUnlockCondition =>
    simp only [hPc, Option.some.injEq] at hStep
    subst hStep
    exact h.releaseCondition (by rw [hPc]; trivial) id (by simp [hPc, Pc.underDeque])

/-- `notify_one` takes at most one thread out of the wait set. -/
theorem State.wake_eq {s s' : State α τ} {woken : Option τ} (h : s.wake woken = some s') :
    ∃ waiters, s' = { s with waiters := waiters } := by
  cases woken with
  | none =>
    simp only [State.wake, Option.ite_none_right_eq_some, Option.some.injEq] at h
    exact ⟨s.waiters, h.2.symm⟩
  | some w =>
    simp only [State.wake, Option.ite_none_right_eq_some, Option.some.injEq] at h
    exact ⟨_, h.2.symm⟩

theorem owned_notify {s s' : State α τ} {t : τ} {woken : Option τ} (h : Owned s)
    (hStep : s.notify t woken = some s') : Owned s' := by
  unfold State.notify at hStep
  split at hStep
  · rename_i c r hPc
    obtain ⟨middle, hWake, rfl⟩ := Option.map_eq_some_iff.mp hStep
    obtain ⟨waiters, rfl⟩ := State.wake_eq hWake
    refine (h.waiters waiters).move (t := t) rfl rfl rfl ?_ ?_
    all_goals simp [hPc, Pc.underDeque, Pc.underCondition]
  · rename_i hPc
    obtain ⟨middle, hWake, rfl⟩ := Option.map_eq_some_iff.mp hStep
    obtain ⟨waiters, rfl⟩ := State.wake_eq hWake
    refine (h.waiters waiters).move (t := t) rfl rfl rfl ?_ ?_
    all_goals simp [hPc, Pc.underDeque, Pc.underCondition]
  · cases hStep

theorem owned_step {s s' : State α τ} {e : Event α τ} (h : Owned s)
    (hStep : s.step e = some s') : Owned s' := by
  cases e with
  | call t c =>
    simp only [State.step] at hStep
    split at hStep
    · rename_i hPc
      cases hStep
      refine h.move (t := t) rfl rfl rfl ?_ ?_
      all_goals cases c <;> simp [hPc, Call.entry, Pc.underDeque, Pc.underCondition]
    · cases hStep
  | advance t => exact owned_advance h hStep
  | notify t woken => exact owned_notify h hStep
  | wakeSpuriously t =>
    simp only [State.step, Option.ite_none_right_eq_some, Option.some.injEq] at hStep
    obtain ⟨-, rfl⟩ := hStep
    exact h.waiters _

theorem owned_of_reach {s : State α τ} (h : Reach (system α τ) Free s) : Owned s :=
  h.invariant (I := Owned) (fun _ => owned_init) fun _ _ _ hs _ hStep => owned_step hs hStep

/-! ## The lock order -/

omit [DecidableEq τ] in
theorem Owned.under {s : State α τ} (h : Owned s) {t : τ} {m : Mutex}
    (hHolds : s.owner m = some t) : (s.pc t).under m := by
  cases m with
  | deque => exact (h.deque t).mp hHolds
  | condition => exact (h.condition t).mp hHolds

omit [DecidableEq τ] in
/-- A push waits for `m_ContidionMutex` under `m_DequeMutex`; every other acquisition is
made under no mutex. -/
theorem ordered {s : State α τ} (h : Owned s) : s.locks.Ordered Mutex.rank := by
  intro t m held hWants hHolds
  have hUnder := h.under hHolds
  simp only [State.locks, State.wants] at hWants
  split at hWants
  · rename_i c hPc
    cases held <;> simp [hPc, Pc.under, Pc.underDeque, Pc.underCondition] at hUnder
  · rename_i c r hPc
    cases held with
    | deque =>
      subst hWants
      exact Fin.zero_lt_one
    | condition => simp [hPc, Pc.under, Pc.underCondition] at hUnder
  · rename_i hPc
    cases held <;> simp [hPc, Pc.under, Pc.underDeque, Pc.underCondition] at hUnder
  · rename_i hPc
    cases held <;> simp [hPc, Pc.under, Pc.underDeque, Pc.underCondition] at hUnder
  · rename_i hPc
    cases held <;> simp [hPc, Pc.under, Pc.underDeque, Pc.underCondition] at hUnder
  · exact hWants.elim

/-! ## Progress -/

/-- The thread takes its next step in the operation it is in. -/
def State.CanStep (s : State α τ) (t : τ) : Prop :=
  (s.advance t).isSome ∨ ∃ woken, (s.notify t woken).isSome

/-- `notify_one` is never blocked. -/
theorem State.exists_wake (s : State α τ) : ∃ woken s', s.wake woken = some s' := by
  cases hWaiters : s.waiters with
  | nil => exact ⟨none, s, by simp [State.wake, hWaiters]⟩
  | cons w rest => exact ⟨some w, _, if_pos (by simp [hWaiters])⟩

/-- A thread under a mutex, or at the acquisition of one, is stopped by nothing but a
mutex that is held. -/
theorem canStep_of_unblocked {s : State α τ} {t : τ}
    (hFree : ∀ m, s.wants t m → s.owner m = none)
    (hInside : ∃ m, s.wants t m ∨ (s.pc t).under m) : s.CanStep t := by
  obtain ⟨m, hInside⟩ := hInside
  unfold State.CanStep State.advance State.notify
  cases hPc : s.pc t with
  | outside =>
    cases m <;> simp [State.wants, hPc, Pc.under, Pc.underDeque, Pc.underCondition] at hInside
  | lockDeque c =>
    have hNone : s.dequeOwner = none := hFree .deque (by simp [State.wants, hPc])
    left
    simp [State.acquireDeque, hNone]
  | lockCondition | stopLock | waitLockCondition =>
    have hNone : s.conditionOwner = none := hFree .condition (by simp [State.wants, hPc])
    left
    simp [State.acquireCondition, hNone]
  | waitAsleep =>
    have hWoken : t ∉ s.waiters := by
      intro hAsleep
      cases m <;> simp [State.wants, hPc, hAsleep, Pc.under, Pc.underDeque, Pc.underCondition]
        at hInside
    have hNone : s.conditionOwner = none := hFree .condition (by simp [State.wants, hPc, hWoken])
    left
    simp [State.acquireCondition, hWoken, hNone]
  | notify | stopNotify =>
    obtain ⟨woken, s', hWake⟩ := s.exists_wake
    right
    exact ⟨woken, by simp [hWake]⟩
  | access | unlockCondition | unlockDeque | stopSet | stopUnlock | waitUnlockDeque
  | waitTestStop | waitSleep | waitUnlockCondition =>
    left
    rfl

/-- What the mutexes promise to the threads. -/
structure DeadlockFree (s : State α τ) : Prop where
  /-- No thread waits for itself through any number of holders. -/
  noCycle : ∀ t, ¬ TransGen s.locks.WaitsFor t t
  /-- No thread acquires a mutex that it holds. -/
  noRelock : ∀ t m, s.wants t m → s.owner m ≠ some t
  /-- A thread waits for one thread at most, so that there is one way to follow. -/
  oneHolder : ∀ t u v, s.locks.WaitsFor t u → s.locks.WaitsFor t v → u = v
  /-- From a thread at an acquisition, holder after holder leads to a thread that steps. -/
  progress : ∀ t m, s.wants t m → ∃ u, ReflTransGen s.locks.WaitsFor t u ∧ s.CanStep u

omit [DecidableEq τ] in
theorem State.wants_unique {s : State α τ} {t : τ} {m m' : Mutex} (h : s.wants t m)
    (h' : s.wants t m') : m = m' := by
  unfold State.wants at h h'
  split at h <;> simp_all

/-- **The deque never deadlocks on its mutexes**, for any threads and any operations. -/
theorem deadlockFree_of_reach {s : State α τ} (h : Reach (system α τ) Free s) :
    DeadlockFree s := by
  have hOwned := owned_of_reach h
  have hOrdered := ordered hOwned
  refine ⟨hOrdered.acyclic, ?_, ?_, ?_⟩
  · intro t m hWants
    exact hOrdered.not_holds hWants
  · rintro t u v ⟨m, hWants, hHolds⟩ ⟨m', hWants', hHolds'⟩
    have hSame := State.wants_unique hWants hWants'
    subst hSame
    exact Option.some.inj (Eq.trans (Eq.symm hHolds) hHolds')
  · intro t m hWants
    obtain ⟨u, hPath, hEnd⟩ := hOrdered.exists_end t
    refine ⟨u, hPath, canStep_of_unblocked ?_ ?_⟩
    · intro m' hWants'
      cases hOwner : s.owner m' with
      | none => rfl
      | some v => exact absurd ⟨m', hWants', hOwner⟩ (hEnd v)
    · -- the end of the chain is the thread itself or the holder of a mutex
      rcases ReflTransGen.cases_tail hPath with hSelf | ⟨before, -, held, -, hHolds⟩
      · exact ⟨m, Or.inl (hSelf ▸ hWants)⟩
      · exact ⟨held, Or.inr (hOwned.under hHolds)⟩

/-- Three threads, none of which has started. -/
def threeAtRest : State Unit (Fin 3) where
  deque := []
  stopWaiting := false
  dequeOwner := none
  conditionOwner := none
  waiters := []
  pc _ := .outside

/-- Thread 0 holds `m_ContidionMutex` on its way to sleep, thread 1 waits for it in a push,
and thread 2 waits for the push. -/
def queueUp : List (Event Unit (Fin 3)) :=
  [.call 0 .wait, .advance 0, .advance 0, .advance 0, .advance 0, .advance 0,
    .call 1 (.pushBack ()), .advance 1, .advance 1, .call 2 .size]

/-- Thread 2 follows thread 1 to thread 0, which can step. -/
theorem deadlockFree_queued : ∃ s : State Unit (Fin 3), DeadlockFree s ∧ s.wants 2 .deque ∧
    s.dequeOwner = some 1 ∧ s.wants 1 .condition ∧ s.conditionOwner = some 0 := by
  have hQuiet : threeAtRest.Quiet := ⟨rfl, rfl, rfl, fun _ => rfl⟩
  obtain ⟨s, hReach, hEnd⟩ := Reach.exists_of_free (M := system Unit (Fin 3)) hQuiet queueUp
    (fun s => decide (s.wants 2 .deque ∧ s.dequeOwner = some 1 ∧ s.wants 1 .condition ∧
      s.conditionOwner = some 0)) (by decide)
  exact ⟨s, deadlockFree_of_reach hReach, of_decide_eq_true hEnd⟩

end MinecraftNetwork.TSDeque
