import MinecraftNetwork.TSDeque.Basic

/-!
# Wakeups of `TSDeque::Wait`

One thread waits, the others push, emplace or call `StopWaiting`. `Wait` tests the deque
under `m_DequeMutex` and `m_StopWaiting` under no mutex, and only then takes
`m_ContidionMutex` to sleep. A notification that falls between a test and the sleep finds
nobody asleep and is gone: `Missed` describes these moments, and
`wait_sleeps_beside_an_element` is a run through one of them.

These moments are the only ones. The invariant `Awake` says that a waiter which has
decided to sleep although the deque is not empty or waiting was stopped still has a
notification coming, from a thread that has pushed or stopped and not yet notified. Every
step keeps it except a missed notification (`awake_step`), so in the runs without one no
wakeup is lost (`no_lost_wakeup`).
-/

namespace MinecraftNetwork.TSDeque

open Runs

/-! ## Who does what -/

namespace Pc

variable {α : Type}

/-- A place in `Wait`. -/
def inWait : Pc α → Prop
  | .outside | .lockDeque .wait | .access .wait | .waitUnlockDeque _ | .waitTestStop
  | .waitLockCondition | .waitSleep | .waitAsleep | .waitUnlockCondition => True
  | _ => False

/-- A place in a push, an emplacement or `StopWaiting`. -/
def inSend : Pc α → Prop
  | .outside | .stopLock | .stopSet | .stopNotify | .stopUnlock => True
  | .lockDeque c | .access c | .lockCondition c _ | .notify c _ | .unlockCondition c _
  | .unlockDeque c _ => c.pushes = true
  | _ => False

/-- The element is in the deque, or `m_StopWaiting` is set, and the notification is still
to be made. -/
def owes : Pc α → Prop
  | .lockCondition _ _ | .notify _ _ | .stopNotify => True
  | _ => False

/-- `Empty()` has returned true and `m_StopWaiting` is still to be tested. -/
def testing : Pc α → Prop
  | .waitUnlockDeque isEmpty => isEmpty = true
  | .waitTestStop => True
  | _ => False

/-- Both tests have let the waiter go on to sleep, and it is not yet asleep. -/
def committed : Pc α → Prop
  | .waitLockCondition | .waitSleep => True
  | _ => False

end Pc

instance {α : Type} (p : Pc α) : Decidable p.testing := by
  cases p with
  | waitUnlockDeque isEmpty => exact inferInstanceAs (Decidable (isEmpty = true))
  | waitTestStop => exact isTrue trivial
  | _ => exact isFalse id

instance {α : Type} (p : Pc α) : Decidable p.committed := by
  cases p with
  | waitLockCondition | waitSleep => exact isTrue trivial
  | _ => exact isFalse id

variable {α τ : Type} [DecidableEq τ]

/-- Thread `w` calls `Wait`, the others push, emplace or stop. -/
def Roles (w : τ) (_ : State α τ) : Event α τ → Prop
  | .call t .wait => t = w
  | .call t .stopWaiting => t ≠ w
  | .call t c => t ≠ w ∧ c.pushes = true
  | _ => True

/-- A notification given now reaches nobody, and the waiter goes to sleep after it. -/
def Missed (w : τ) (s : State α τ) : Prop :=
  ((s.pc w).testing ∧ s.stopWaiting = false) ∨ (s.pc w).committed

/-- The roles are kept and no notification is missed. -/
def Timely (w : τ) (s : State α τ) (e : Event α τ) : Prop :=
  Roles w s e ∧ match e with
    | .notify _ _ => ¬ Missed w s
    | _ => True

instance (w : τ) (s : State α τ) : Decidable (Missed w s) :=
  inferInstanceAs (Decidable (_ ∨ _))

/-! ## One step of a sender and of the waiter -/

@[simp] theorem State.goto_pc_self (s : State α τ) (t : τ) (p : Pc α) : (s.goto t p).pc t = p := by
  simp [State.goto]

theorem State.goto_pc_ne (s : State α τ) {t u : τ} (p : Pc α) (h : u ≠ t) :
    (s.goto t p).pc u = s.pc u := by
  simp [State.goto, h]

/-- What the step of a thread leaves alone: the places of the other threads. -/
theorem advance_frame {s s' : State α τ} {t : τ} (h : s.advance t = some s') {u : τ}
    (hu : u ≠ t) : s'.pc u = s.pc u := by
  have hOther : ∀ p, (s.goto t p).pc u = s.pc u := fun p => s.goto_pc_ne p hu
  unfold State.advance State.acquireDeque State.acquireCondition at h
  repeat' split at h
  all_goals cases h
  all_goals exact hOther _

/-- A sender that steps leaves the waiters alone, and it either changes neither the deque
nor `m_StopWaiting` and still owes what it owed, or it now owes a notification. -/
theorem advance_sender {s s' : State α τ} {t : τ} (hSend : (s.pc t).inSend)
    (h : s.advance t = some s') :
    s'.waiters = s.waiters ∧ (s'.pc t).inSend ∧
      ((s'.pc t).owes ∨
        (s'.deque = s.deque ∧ s'.stopWaiting = s.stopWaiting ∧ ¬ (s.pc t).owes)) := by
  unfold State.advance State.acquireDeque State.acquireCondition at h
  cases hPc : s.pc t with
  | outside | notify | stopNotify => simp [hPc] at h
  | waitUnlockDeque | waitTestStop | waitLockCondition | waitSleep | waitAsleep
  | waitUnlockCondition => simp [hPc, Pc.inSend] at hSend
  | lockDeque c =>
    simp only [hPc] at h hSend
    split at h <;> cases h
    exact ⟨rfl, by simpa [Pc.inSend] using hSend, Or.inr ⟨rfl, rfl, by simp [Pc.owes]⟩⟩
  | access c =>
    simp only [hPc] at h hSend
    cases h
    cases c <;> first | (simp [Pc.inSend, Call.pushes] at hSend; done) |
      simp [State.access, Call.pushes, Pc.inSend, Pc.owes, State.goto]
  | lockCondition c r =>
    simp only [hPc] at h hSend
    split at h <;> cases h
    exact ⟨rfl, by simpa [Pc.inSend] using hSend, Or.inl (by simp [Pc.owes])⟩
  | unlockCondition c r =>
    simp only [hPc] at h hSend
    cases h
    exact ⟨rfl, by simpa [Pc.inSend, State.releaseCondition] using hSend,
      Or.inr ⟨rfl, rfl, by simp [Pc.owes]⟩⟩
  | unlockDeque c r =>
    simp only [hPc] at h
    cases h
    exact ⟨rfl, by simp [Pc.inSend, State.releaseDeque],
      Or.inr ⟨rfl, rfl, by simp [Pc.owes]⟩⟩
  | stopLock =>
    simp only [hPc] at h
    split at h <;> cases h
    exact ⟨rfl, by simp [Pc.inSend], Or.inr ⟨rfl, rfl, by simp [Pc.owes]⟩⟩
  | stopSet =>
    simp only [hPc] at h
    cases h
    exact ⟨rfl, by simp [Pc.inSend], Or.inl (by simp [Pc.owes])⟩
  | stopUnlock =>
    simp only [hPc] at h
    cases h
    exact ⟨rfl, by simp [Pc.inSend, State.releaseCondition],
      Or.inr ⟨rfl, rfl, by simp [Pc.owes]⟩⟩

/-- The waiter that steps changes neither the deque nor `m_StopWaiting`. It begins to test
only on an empty deque, it decides to sleep only on a false `m_StopWaiting`, and it falls
asleep only after that. -/
theorem advance_waiter {s s' : State α τ} {w : τ} (hWait : (s.pc w).inWait)
    (h : s.advance w = some s') :
    s'.deque = s.deque ∧ s'.stopWaiting = s.stopWaiting ∧ (s'.pc w).inWait ∧
      ((s'.pc w).testing → (s.pc w).testing ∨ s.deque = []) ∧
      ((s'.pc w).committed → (s.pc w).committed ∨ ((s.pc w).testing ∧ s.stopWaiting = false)) ∧
      ((s'.waiters = s.waiters ∧ w ∉ s.waiters) ∨ (s'.waiters = s.waiters ∧ s.pc w ≠ .waitAsleep) ∨
        (s'.waiters = w :: s.waiters ∧ s'.pc w = .waitAsleep ∧ (s.pc w).committed)) := by
  unfold State.advance State.acquireDeque State.acquireCondition at h
  cases hPc : s.pc w with
  | outside | notify | stopNotify => simp [hPc] at h
  | lockCondition | unlockCondition | unlockDeque | stopLock | stopSet | stopUnlock =>
    simp [hPc, Pc.inWait] at hWait
  | lockDeque c =>
    simp only [hPc] at h hWait
    split at h <;> cases h
    refine ⟨rfl, rfl, ?_, ?_, ?_, Or.inr (Or.inl ⟨rfl, by simp⟩)⟩
    · cases c <;> simp_all [Pc.inWait]
    · simp [Pc.testing]
    · simp [Pc.committed]
  | access c =>
    simp only [hPc] at h hWait
    cases h
    cases c <;> simp_all [Pc.inWait, State.access, State.goto, Pc.testing, Pc.committed, Call.act]
  | waitUnlockDeque isEmpty =>
    simp only [hPc] at h
    cases h
    cases isEmpty <;>
      simp [State.releaseDeque, State.goto, Pc.inWait, Pc.testing, Pc.committed]
  | waitTestStop =>
    simp only [hPc] at h
    cases h
    cases hStop : s.stopWaiting <;>
      simp [hStop, State.goto, Pc.inWait, Pc.testing, Pc.committed]
  | waitLockCondition =>
    simp only [hPc] at h
    split at h <;> cases h
    simp [State.goto, Pc.inWait, Pc.testing, Pc.committed]
  | waitSleep =>
    simp only [hPc] at h
    cases h
    simp [State.releaseCondition, State.goto, Pc.inWait, Pc.testing, Pc.committed]
  | waitAsleep =>
    simp only [hPc] at h
    split at h
    · cases h
    · split at h <;> cases h
      simp [State.goto, Pc.inWait, Pc.testing, Pc.committed, *]
  | waitUnlockCondition =>
    simp only [hPc] at h
    cases h
    simp [State.releaseCondition, State.goto, Pc.inWait, Pc.testing, Pc.committed]

/-! ## The invariant -/

/-- A waiter that sleeps, or is about to, while there is something to wake it for still
has a notification coming. -/
structure Awake (w : τ) (s : State α τ) : Prop where
  waiter : (s.pc w).inWait
  senders : ∀ t, t ≠ w → (s.pc t).inSend
  asleep : s.waiters = [] ∨ (s.waiters = [w] ∧ s.pc w = .waitAsleep)
  tested : (s.pc w).testing → s.deque ≠ [] →
    s.stopWaiting = true ∨ ∃ t, t ≠ w ∧ (s.pc t).owes
  coming : (s.pc w).committed ∨ w ∈ s.waiters → (s.deque ≠ [] ∨ s.stopWaiting = true) →
    ∃ t, t ≠ w ∧ (s.pc t).owes

omit [DecidableEq τ] in
theorem awake_init {w : τ} {s : State α τ} (h : s.Quiet) : Awake w s := by
  obtain ⟨-, -, hWaiters, hPc⟩ := h
  constructor <;> simp [hWaiters, hPc, Pc.inWait, Pc.inSend, Pc.testing, Pc.committed]

/-- `goto` on a thread at rest: the entry of an operation. -/
theorem awake_enter {w t : τ} {s : State α τ} {p : Pc α} (h : Awake w s)
    (hPc : s.pc t = .outside) (hWait : t = w → p.inWait ∧ ¬ p.testing ∧ ¬ p.committed)
    (hSend : t ≠ w → p.inSend) : Awake w (s.goto t p) := by
  by_cases hw : t = w
  · subst hw
    obtain ⟨hIn, hTest, hCommit⟩ := hWait rfl
    have hAwake : s.waiters = [] := by
      rcases h.asleep with h' | ⟨-, h'⟩
      · exact h'
      · rw [hPc] at h'
        cases h'
    refine ⟨by simpa using hIn, ?_, Or.inl hAwake, by simp [hTest], ?_⟩
    · intro u hu
      rw [s.goto_pc_ne p hu]
      exact h.senders u hu
    · rintro (hc | hc)
      · exact absurd (by simpa using hc) hCommit
      · simp [State.goto, hAwake] at hc
  · have hw' : (s.goto t p).pc w = s.pc w := s.goto_pc_ne p (Ne.symm hw)
    -- a thread at rest owes nothing, so no notification disappears
    have hOwes : (∃ u, u ≠ w ∧ (s.pc u).owes) → ∃ u, u ≠ w ∧ ((s.goto t p).pc u).owes := by
      rintro ⟨u, hu, hOwe⟩
      have hut : u ≠ t := by
        rintro rfl
        simp [hPc, Pc.owes] at hOwe
      exact ⟨u, hu, by rwa [s.goto_pc_ne p hut]⟩
    refine ⟨hw' ▸ h.waiter, ?_, hw' ▸ h.asleep, ?_, ?_⟩
    · intro u hu
      by_cases hut : u = t
      · subst hut
        simpa using hSend hu
      · rw [s.goto_pc_ne p hut]
        exact h.senders u hu
    · intro hTest hDeque
      rw [hw'] at hTest
      exact (h.tested hTest hDeque).imp id hOwes
    · intro hSleep hReason
      rw [hw'] at hSleep
      exact hOwes (h.coming hSleep hReason)

/-- A step of the waiter. The decision to sleep is taken on what the tests have seen. -/
theorem awake_waiter {w : τ} {s s' : State α τ} (h : Awake w s)
    (hStep : s.advance w = some s') : Awake w s' := by
  obtain ⟨hDeque, hStop, hIn, hTest, hCommit, hWaiters⟩ := advance_waiter h.waiter hStep
  have hOwes : (∃ t, t ≠ w ∧ (s.pc t).owes) → ∃ t, t ≠ w ∧ (s'.pc t).owes := by
    rintro ⟨t, ht, hOwe⟩
    exact ⟨t, ht, by rwa [advance_frame hStep ht]⟩
  have hDecided : (s.pc w).committed ∨ ((s.pc w).testing ∧ s.stopWaiting = false) →
      (s.deque ≠ [] ∨ s.stopWaiting = true) → ∃ t, t ≠ w ∧ (s.pc t).owes := by
    rintro (hCommitted | ⟨hTesting, hFalse⟩) hReason
    · exact h.coming (Or.inl hCommitted) hReason
    · have hNonempty : s.deque ≠ [] := by simpa [hFalse] using hReason
      simpa [hFalse] using h.tested hTesting hNonempty
  refine ⟨hIn, ?_, ?_, ?_, ?_⟩
  · intro t ht
    rw [advance_frame hStep ht]
    exact h.senders t ht
  · rcases hWaiters with ⟨hSame, hOut⟩ | ⟨hSame, hNot⟩ | ⟨hNew, hPc, hCommitted⟩
    · rcases h.asleep with hNone | ⟨hSome, -⟩
      · exact Or.inl (hSame.trans hNone)
      · simp [hSome] at hOut
    · rcases h.asleep with hNone | ⟨-, hAsleep⟩
      · exact Or.inl (hSame.trans hNone)
      · exact absurd hAsleep hNot
    · rcases h.asleep with hNone | ⟨-, hAsleep⟩
      · exact Or.inr ⟨by rw [hNew, hNone], hPc⟩
      · simp [hAsleep, Pc.committed] at hCommitted
  · intro hTesting hNonempty
    rw [hDeque] at hNonempty
    rw [hStop]
    rcases hTest hTesting with hBefore | hEmpty
    · exact (h.tested hBefore hNonempty).imp id hOwes
    · exact absurd hEmpty hNonempty
  · intro hSleep hReason
    rw [hDeque, hStop] at hReason
    apply hOwes
    rcases hSleep with hCommitted | hMem
    · exact hDecided (hCommit hCommitted) hReason
    · rcases hWaiters with ⟨hSame, -⟩ | ⟨hSame, -⟩ | ⟨-, -, hCommitted⟩
      · exact h.coming (Or.inr (hSame ▸ hMem)) hReason
      · exact h.coming (Or.inr (hSame ▸ hMem)) hReason
      · exact hDecided (Or.inl hCommitted) hReason

/-- A step of a sender. Whoever gives a reason to wake the waiter owes the notification. -/
theorem awake_sender {w t : τ} {s s' : State α τ} (h : Awake w s) (hw : t ≠ w)
    (hStep : s.advance t = some s') : Awake w s' := by
  obtain ⟨hWaiters, hSend, hEffect⟩ := advance_sender (h.senders t hw) hStep
  have hPc : s'.pc w = s.pc w := advance_frame hStep (Ne.symm hw)
  have hOwes : (∃ u, u ≠ w ∧ (s.pc u).owes) → ∃ u, u ≠ w ∧ (s'.pc u).owes := by
    rintro ⟨u, hu, hOwe⟩
    by_cases hut : u = t
    · subst hut
      rcases hEffect with hOwe' | ⟨-, -, hNot⟩
      · exact ⟨u, hu, hOwe'⟩
      · exact absurd hOwe hNot
    · exact ⟨u, hu, by rwa [advance_frame hStep hut]⟩
  refine ⟨hPc ▸ h.waiter, ?_, by rw [hWaiters, hPc]; exact h.asleep, ?_, ?_⟩
  · intro u hu
    by_cases hut : u = t
    · subst hut
      exact hSend
    · rw [advance_frame hStep hut]
      exact h.senders u hu
  · intro hTesting hNonempty
    rw [hPc] at hTesting
    rcases hEffect with hOwe | ⟨hDeque, hStop, -⟩
    · exact Or.inr ⟨t, hw, hOwe⟩
    · rw [hDeque] at hNonempty
      rw [hStop]
      exact (h.tested hTesting hNonempty).imp id hOwes
  · intro hSleep hReason
    rw [hPc, hWaiters] at hSleep
    rcases hEffect with hOwe | ⟨hDeque, hStop, -⟩
    · exact ⟨t, hw, hOwe⟩
    · rw [hDeque, hStop] at hReason
      exact hOwes (h.coming hSleep hReason)

/-- Whoever is taken out of the wait set is the waiter, and the wait set is empty then. -/
theorem Awake.woken {w : τ} {s : State α τ} (h : Awake w s) {t : τ} (ht : t ∈ s.waiters) :
    s.waiters.erase t = [] := by
  rcases h.asleep with hNone | ⟨hSome, -⟩
  · simp [hNone] at ht
  · rw [hSome] at ht ⊢
    rw [List.mem_singleton.mp ht, List.erase_cons_head]

/-- A notification that is not missed finds the waiter asleep and wakes it, or finds it
before its tests or about to read a true `m_StopWaiting`. -/
theorem awake_notify {w t : τ} {woken : Option τ} {s s' : State α τ} (h : Awake w s)
    (hTimely : ¬ Missed w s) (hStep : s.notify t woken = some s') : Awake w s' := by
  have hWake : ∀ middle, s.wake woken = some middle →
      middle.waiters = [] ∧ middle.pc = s.pc ∧ middle.stopWaiting = s.stopWaiting := by
    intro middle hMiddle
    cases woken with
    | none =>
      simp only [State.wake, Option.ite_none_right_eq_some, Option.some.injEq] at hMiddle
      obtain ⟨hNone, rfl⟩ := hMiddle
      exact ⟨hNone, rfl, rfl⟩
    | some u =>
      simp only [State.wake, Option.ite_none_right_eq_some, Option.some.injEq] at hMiddle
      obtain ⟨hMem, rfl⟩ := hMiddle
      exact ⟨h.woken hMem, rfl, rfl⟩
  obtain ⟨middle, p, hMiddle, hSend, hwt, rfl⟩ : ∃ middle p, s.wake woken = some middle ∧
      p.inSend ∧ t ≠ w ∧ middle.goto t p = s' := by
    unfold State.notify at hStep
    split at hStep
    · rename_i c r hPc
      obtain ⟨middle, hMiddle, hGoto⟩ := Option.map_eq_some_iff.mp hStep
      have hwt : t ≠ w := by
        rintro rfl
        simpa [hPc, Pc.inWait] using h.waiter
      exact ⟨middle, _, hMiddle, by simpa [hPc, Pc.inSend] using h.senders t hwt, hwt, hGoto⟩
    · rename_i hPc
      obtain ⟨middle, hMiddle, hGoto⟩ := Option.map_eq_some_iff.mp hStep
      have hwt : t ≠ w := by
        rintro rfl
        simpa [hPc, Pc.inWait] using h.waiter
      exact ⟨middle, .stopUnlock, hMiddle, trivial, hwt, hGoto⟩
    · cases hStep
  obtain ⟨hWaiters, hPc, hStop⟩ := hWake middle hMiddle
  have hw : (middle.goto t p).pc w = s.pc w := by
    rw [middle.goto_pc_ne p (Ne.symm hwt), hPc]
  simp only [Missed, not_or, not_and, Bool.not_eq_false] at hTimely
  refine ⟨hw ▸ h.waiter, ?_, Or.inl hWaiters, ?_, ?_⟩
  · intro u hu
    by_cases hut : u = t
    · subst hut
      simpa using hSend
    · rw [middle.goto_pc_ne p hut, hPc]
      exact h.senders u hu
  · intro hTesting _
    rw [hw] at hTesting
    exact Or.inl (hStop.trans (hTimely.1 hTesting))
  · rintro (hCommitted | hMem) _
    · rw [hw] at hCommitted
      exact absurd hCommitted hTimely.2
    · simp [State.goto, hWaiters] at hMem

theorem awake_step {w : τ} {s s' : State α τ} {e : Event α τ} (h : Awake w s)
    (hOk : Timely w s e) (hStep : s.step e = some s') : Awake w s' := by
  obtain ⟨hRole, hTimely⟩ := hOk
  cases e with
  | call t c =>
    simp only [State.step] at hStep
    split at hStep
    · rename_i hPc
      cases hStep
      refine awake_enter h hPc (fun hw => ?_) fun hw => ?_
      · cases c <;> simp [Roles, hw, Call.entry, Pc.inWait, Pc.testing, Pc.committed] at hRole ⊢
      · cases c <;> simp_all [Roles, Call.pushes, Call.entry, Pc.inSend]
    · cases hStep
  | advance t =>
    by_cases hw : t = w
    · subst hw
      exact awake_waiter h hStep
    · exact awake_sender h hw hStep
  | notify t woken => exact awake_notify h hTimely hStep
  | wakeSpuriously t =>
    simp only [State.step, Option.ite_none_right_eq_some, Option.some.injEq] at hStep
    obtain ⟨hMem, rfl⟩ := hStep
    have hNone := h.woken hMem
    refine ⟨h.waiter, h.senders, Or.inl hNone, h.tested, ?_⟩
    rintro (hCommitted | hMem') hReason
    · exact h.coming (Or.inl hCommitted) hReason
    · simp [hNone] at hMem'

/-! ## Runs -/

/-- **No wakeup is lost in a run without a missed notification**: while the waiter sleeps
and every other thread is outside, the deque is empty and waiting has not been stopped. -/
theorem no_lost_wakeup {w : τ} {s : State α τ} (h : Reach (system α τ) (Timely w) s)
    (hAsleep : w ∈ s.waiters) (hOutside : ∀ t, t ≠ w → s.pc t = .outside) :
    s.deque = [] ∧ s.stopWaiting = false := by
  have hAwake : Awake w s :=
    h.invariant (fun _ => awake_init) fun _ _ _ hs hOk hStep => awake_step hs hOk hStep
  have hNobody : ¬ ∃ t, t ≠ w ∧ (s.pc t).owes := by
    rintro ⟨t, ht, hOwe⟩
    simp [hOutside t ht, Pc.owes] at hOwe
  by_contra hReason
  apply hNobody
  apply hAwake.coming (Or.inr hAsleep)
  by_cases hDeque : s.deque = []
  · exact Or.inr (by simpa [hDeque] using hReason)
  · exact Or.inl hDeque

/-- Thread `false` waits and thread `true` pushes, and nobody has started. -/
def atRest : State Unit Bool where
  deque := []
  stopWaiting := false
  dequeOwner := none
  conditionOwner := none
  waiters := []
  pc _ := .outside

theorem atRest_quiet : atRest.Quiet := ⟨rfl, rfl, rfl, fun _ => rfl⟩

/-- The waiter finds an empty deque and goes to sleep. -/
def sleepEvents : List (Event Unit Bool) :=
  [.call false .wait, .advance false, .advance false, .advance false, .advance false,
    .advance false, .advance false]

/-- The waiter has tested the deque and `m_StopWaiting`; the push comes and notifies
nobody; the waiter goes to sleep. -/
def lostEvents : List (Event Unit Bool) :=
  [.call false .wait, .advance false, .advance false, .advance false, .advance false,
    .call true (.pushBack ()), .advance true, .advance true, .advance true,
    .notify true none, .advance true, .advance true,
    .advance false, .advance false]

/-- The states of a run, checked event by event. -/
def rolesB (w : Bool) (_ : State Unit Bool) : Event Unit Bool → Bool
  | .call t .wait => t == w
  | .call t c => t != w && (c.pushes || c matches .stopWaiting)
  | _ => true

theorem roles_of_rolesB (w : Bool) (s : State Unit Bool) (e : Event Unit Bool)
    (h : rolesB w s e = true) : Roles w s e := by
  cases e with
  | call t c => cases c <;> simp_all [rolesB, Roles, Call.pushes]
  | _ => trivial

def timelyB (w : Bool) (s : State Unit Bool) (e : Event Unit Bool) : Bool :=
  rolesB w s e && (!(e matches .notify _ _) || !decide (Missed w s))

theorem timely_of_timelyB (w : Bool) (s : State Unit Bool) (e : Event Unit Bool)
    (h : timelyB w s e = true) : Timely w s e := by
  simp only [timelyB, Bool.and_eq_true] at h
  refine ⟨roles_of_rolesB w s e h.1, ?_⟩
  cases e <;> simp_all

def atOutside : Pc Unit → Bool
  | .outside => true
  | _ => false

/-- The waiter goes to sleep on an empty deque. -/
theorem no_lost_wakeup_asleep : ∃ s : State Unit Bool, Reach (system Unit Bool) (Timely false) s ∧
    false ∈ s.waiters ∧ s.deque = [] ∧ s.stopWaiting = false := by
  obtain ⟨s, hReach, hEnd⟩ := Reach.exists_of_replay (M := system Unit Bool)
    (timely_of_timelyB false) atRest_quiet sleepEvents
    (fun s => s.waiters.contains false && atOutside (s.pc true)) (by decide)
  simp only [Bool.and_eq_true, List.contains_iff_mem] at hEnd
  refine ⟨s, hReach, hEnd.1, no_lost_wakeup hReach hEnd.1 ?_⟩
  intro t ht
  cases t with
  | false => exact absurd rfl ht
  | true => cases hPc : s.pc true <;> simp_all [atOutside]

/-- **A lost wakeup**: the waiter sleeps beside an element, and every push is over. -/
theorem wait_sleeps_beside_an_element :
    ∃ s : State Unit Bool, Reach (system Unit Bool) (Roles false) s ∧ false ∈ s.waiters ∧
      (∀ t, t ≠ false → s.pc t = .outside) ∧ s.deque = [()] := by
  obtain ⟨s, hReach, hEnd⟩ := Reach.exists_of_replay (M := system Unit Bool)
    (roles_of_rolesB false) atRest_quiet lostEvents
    (fun s => s.waiters.contains false && atOutside (s.pc true) && s.deque == [()])
    (by decide)
  simp only [Bool.and_eq_true, List.contains_iff_mem, beq_iff_eq] at hEnd
  refine ⟨s, hReach, hEnd.1.1, ?_, hEnd.2⟩
  intro t ht
  cases t with
  | false => exact absurd rfl ht
  | true => cases hPc : s.pc true <;> simp_all [atOutside]

end MinecraftNetwork.TSDeque
