import MinecraftNetwork.PollMessages.Threads

/-!
# The loop with locks refines the loop of atomic steps

`Located` pairs the places of the loop with the places inside the operation it has called,
and the other threads are in `EmplaceBack` or outside (`Coherent`). From such a state every
step is no step of `Polling` or one (`step_polls`), so a run of the threads is a run of
`Polling`, with the same messages processed in the same order (`polls_of_threads`).

`PopFront` reads the front of the deque without a test of its own. That there is one comes
from the other side: the loop of atomic steps keeps `Polling.Sound`.
-/

namespace MinecraftNetwork

open Runs

namespace TSDeque

variable {α τ : Type}

namespace Pc

/-- A place in `EmplaceBack`, or in no operation. -/
def inEmplace : Pc α → Prop
  | .outside => True
  | .lockDeque c | .access c | .lockCondition c _ | .notify c _ | .unlockCondition c _
  | .unlockDeque c _ => ∃ x, c = .emplaceBack x
  | _ => False

/-- A place in `Wait` before it has found the deque not empty. -/
def awaiting : Pc α → Prop
  | .lockDeque .wait | .access .wait | .waitUnlockDeque true | .waitTestStop
  | .waitLockCondition | .waitSleep | .waitAsleep | .waitUnlockCondition => True
  | _ => False

end Pc

variable [DecidableEq τ]

/-- A step of `EmplaceBack` changes the deque at its access only. -/
theorem advance_emplace {s s' : State α τ} {t : τ} (hIn : (s.pc t).inEmplace)
    (h : s.advance t = some s') :
    (s'.pc t).inEmplace ∧ s'.stopWaiting = s.stopWaiting ∧
      s'.deque = s.deque ++ Threads.emplaced s t := by
  unfold State.advance at h
  unfold Threads.emplaced
  cases hPc : s.pc t with
  | outside | notify | stopNotify => simp [hPc] at h
  | lockDeque c =>
    simp only [hPc] at h hIn
    rw [State.acquireDeque_eq h]
    exact ⟨by simpa [State.goto, Pc.inEmplace] using hIn, rfl, by simp [State.goto]⟩
  | access c =>
    simp only [hPc, Option.some.injEq] at h hIn
    subst h
    obtain ⟨x, rfl⟩ := hIn
    exact ⟨by simp [State.access, State.goto, Call.pushes, Pc.inEmplace], rfl, rfl⟩
  | lockCondition c r =>
    simp only [hPc] at h hIn
    rw [State.acquireCondition_eq h]
    exact ⟨by simpa [State.goto, Pc.inEmplace] using hIn, rfl, by simp [State.goto]⟩
  | unlockCondition c r =>
    simp only [hPc, Option.some.injEq] at h hIn
    subst h
    exact ⟨by simpa [State.releaseCondition, State.goto, Pc.inEmplace] using hIn, rfl,
      by simp [State.releaseCondition, State.goto]⟩
  | unlockDeque c r =>
    simp only [hPc, Option.some.injEq] at h hIn
    subst h
    exact ⟨by simp [State.releaseDeque, State.goto, Pc.inEmplace], rfl,
      by simp [State.releaseDeque, State.goto]⟩
  | stopLock | stopSet | stopUnlock | waitUnlockDeque | waitTestStop | waitLockCondition | waitSleep
  | waitAsleep | waitUnlockCondition => simp [hPc, Pc.inEmplace] at hIn

/-- A step of `Wait` that has found nothing goes on waiting, or now finds an element. -/
theorem advance_awaiting {s s' : State α τ} {w : τ} (hAt : (s.pc w).awaiting)
    (hRun : s.stopWaiting = false) (h : s.advance w = some s') :
    s'.deque = s.deque ∧ s'.stopWaiting = false ∧ s.returned w = none ∧
      ((s'.pc w).awaiting ∨ s.deque ≠ [] ∧ s'.pc w = .waitUnlockDeque false) := by
  unfold State.advance at h
  unfold State.returned
  cases hPc : s.pc w with
  | outside | notify | stopNotify => simp [hPc] at h
  | lockCondition | unlockCondition | unlockDeque | stopLock | stopSet | stopUnlock =>
    simp [hPc, Pc.awaiting] at hAt
  | lockDeque c =>
    simp only [hPc] at h hAt
    rw [State.acquireDeque_eq h]
    cases c with
    | wait => exact ⟨rfl, hRun, rfl, .inl (by simp [State.goto, Pc.awaiting])⟩
    | _ => exact hAt.elim
  | access c =>
    simp only [hPc, Option.some.injEq] at h hAt
    subst h
    cases c with
    | wait =>
      refine ⟨rfl, hRun, rfl, ?_⟩
      cases hDeque : s.deque with
      | nil => exact .inl (by simp [State.access, State.goto, hDeque, Pc.awaiting])
      | cons x rest => exact .inr ⟨by simp, by simp [State.access, State.goto, hDeque]⟩
    | _ => exact hAt.elim
  | waitUnlockDeque isEmpty =>
    simp only [hPc, Option.some.injEq] at h hAt
    subst h
    cases isEmpty with
    | true =>
      exact ⟨rfl, hRun, rfl, .inl (by simp [State.releaseDeque, State.goto, Pc.awaiting])⟩
    | false => exact hAt.elim
  | waitTestStop =>
    simp only [hPc, hRun, Option.some.injEq] at h
    subst h
    exact ⟨rfl, hRun, by simp [hRun], .inl (by simp [State.goto, Pc.awaiting])⟩
  | waitLockCondition =>
    simp only [hPc] at h
    rw [State.acquireCondition_eq h]
    exact ⟨rfl, hRun, rfl, .inl (by simp [State.goto, Pc.awaiting])⟩
  | waitSleep =>
    simp only [hPc, Option.some.injEq] at h
    subst h
    exact ⟨rfl, hRun, rfl, .inl (by simp [State.releaseCondition, State.goto, Pc.awaiting])⟩
  | waitAsleep =>
    simp only [hPc] at h
    split at h
    · cases h
    · rw [State.acquireCondition_eq h]
      exact ⟨rfl, hRun, rfl, .inl (by simp [State.goto, Pc.awaiting])⟩
  | waitUnlockCondition =>
    simp only [hPc, Option.some.injEq] at h
    subst h
    exact ⟨rfl, hRun, rfl, .inl (by simp [State.releaseCondition, State.goto, Pc.awaiting])⟩

/-- A notification moves the thread that gives it, and the deque stays. -/
theorem notify_emplace {s s' : State α τ} {t : τ} {woken : Option τ}
    (hIn : (s.pc t).inEmplace) (h : s.notify t woken = some s') :
    (s'.pc t).inEmplace ∧ (∀ u, u ≠ t → s'.pc u = s.pc u) ∧ s'.stopWaiting = s.stopWaiting ∧
      s'.deque = s.deque := by
  unfold State.notify at h
  split at h
  · rename_i c r hPc
    obtain ⟨middle, hWake, rfl⟩ := Option.map_eq_some_iff.mp h
    obtain ⟨waiters, rfl⟩ := State.wake_eq hWake
    rw [hPc] at hIn
    refine ⟨by simpa [State.goto, Pc.inEmplace] using hIn, fun u hu => ?_, rfl, rfl⟩
    exact State.goto_pc_ne _ _ hu
  · rename_i hPc
    rw [hPc] at hIn
    exact hIn.elim
  · cases h

/-- A call moves the thread that makes it. -/
theorem call_eq {s s' : State α τ} {t : τ} {c : Call α} (h : s.step (.call t c) = some s') :
    s.pc t = .outside ∧ s' = s.goto t c.entry := by
  simp only [State.step] at h
  split at h <;> cases h
  exact ⟨‹_›, rfl⟩

end TSDeque

namespace Threads

open TSDeque (State Event Call Pc)

variable {α τ : Type}

/-- Where the loop is, and where it is in the operation it has called. -/
inductive Located : Loop α → Pc α → Prop
  | idle : Located .idle .outside
  | awaiting {n : UInt64} {p : Pc α} (hAt : p.awaiting) : Located (.waiting n) p
  | found {n : UInt64} : Located (.waiting n) (.waitUnlockDeque false)
  | testing {n : UInt64} : Located (.testing n) .outside
  | checkLock {n : UInt64} (hn : n + 1 ≠ 0) : Located (.checking n) (.lockDeque .empty)
  | checkAccess {n : UInt64} (hn : n + 1 ≠ 0) : Located (.checking n) (.access .empty)
  | checked {n : UInt64} {isEmpty : Bool} :
    Located (.checking n) (.unlockDeque .empty (.flag isEmpty))
  | body {n : UInt64} : Located (.body n) .outside
  | takeLock {n : UInt64} : Located (.taking n) (.lockDeque .popFront)
  | takeAccess {n : UInt64} : Located (.taking n) (.access .popFront)
  | taken {n : UInt64} {x : α} :
    Located (.taking n) (.unlockDeque .popFront (.element (some x)))
  | handing {n : UInt64} {x : α} : Located (.handing n (some x)) .outside

theorem place_awaiting {p : Pc α} (n : UInt64) (hAt : p.awaiting) :
    place (.waiting n) p = .waiting n := by
  cases p with
  | waitUnlockDeque isEmpty =>
    cases isEmpty with
    | true => rfl
    | false => exact hAt.elim
  | _ => rfl

/-- The polling thread gives no notification. -/
theorem Located.not_notify {loop : Loop α} {p : Pc α} (h : Located loop p) :
    (∀ c r, p ≠ .notify c r) ∧ p ≠ .stopNotify := by
  cases h with
  | awaiting hAt =>
    refine ⟨?_, ?_⟩
    · rintro c r rfl
      exact hAt
    · rintro rfl
      exact hAt
  | idle | found | testing | checkLock | checkAccess | checked | body | takeLock | takeAccess
  | taken | handing => simp

/-- The states that the threads reach. -/
structure Coherent (w : τ) (s : Threads α τ) : Prop where
  running : s.queue.stopWaiting = false
  poller : Located s.loop (s.queue.pc w)
  others : ∀ t, t ≠ w → (s.queue.pc t).inEmplace

variable [DecidableEq τ] {w : τ} {s s' : Threads α τ}

/-- What a step is to the loop of atomic steps. -/
def Matched (p p' : Polling α) : Prop := p' = p ∨ ∃ e, p.pollsStep e = some p'

/-- A step of a thread that emplaces. -/
theorem producer_polls {t : τ} (h : Coherent w s) (ht : t ≠ w)
    (hStep : s.step w (.run (.advance t)) = some s') :
    Coherent w s' ∧ Matched (s.abstract w) (s'.abstract w) := by
  obtain ⟨q, hQueue, rfl⟩ := Option.map_eq_some_iff.mp hStep
  have hFrame : ∀ u, u ≠ t → q.pc u = s.queue.pc u := fun u hu =>
    TSDeque.advance_frame hQueue hu
  have hPoller : q.pc w = s.queue.pc w := hFrame w (Ne.symm ht)
  obtain ⟨hPlace, hStop, hDeque⟩ := TSDeque.advance_emplace (h.others t ht) hQueue
  have hLoop : s.resumed w t = s.loop := if_neg ht
  refine ⟨⟨hStop.trans h.running, ?_, ?_⟩, ?_⟩
  · simp only
    rw [hLoop, hPoller]
    exact h.poller
  · intro u hu
    by_cases hut : u = t
    · exact hut ▸ hPlace
    · simp only
      rw [hFrame u hut]
      exact h.others u hu
  · have hAbstract : Threads.abstract w
        { s with
          queue := q, loop := s.resumed w t, enqueued := s.enqueued ++ emplaced s.queue t } =
        { s.abstract w with
          incomingMessages := (s.abstract w).incomingMessages ++ emplaced s.queue t,
          enqueued := s.enqueued ++ emplaced s.queue t } := by
      simp only [abstract, hLoop, hPoller, hDeque, List.append_assoc]
    rw [hAbstract]
    unfold emplaced
    split
    · rename_i x _
      exact .inr ⟨.emplaceBack x, rfl⟩
    · left
      simp [abstract]

theorem notify_polls {t : τ} {woken : Option τ} (h : Coherent w s)
    (hStep : s.step w (.run (.notify t woken)) = some s') :
    Coherent w s' ∧ Matched (s.abstract w) (s'.abstract w) := by
  obtain ⟨q, hQueue, rfl⟩ := Option.map_eq_some_iff.mp hStep
  by_cases ht : t = w
  · -- the polling thread has nothing to notify of
    subst ht
    obtain ⟨hPush, hStop⟩ := h.poller.not_notify
    change s.queue.notify t woken = some q at hQueue
    unfold State.notify at hQueue
    split at hQueue
    · exact absurd ‹_› (hPush _ _)
    · exact absurd ‹_› hStop
    · cases hQueue
  · obtain ⟨hPlace, hFrame, hStop, hDeque⟩ := TSDeque.notify_emplace (h.others t ht) hQueue
    have hPoller : q.pc w = s.queue.pc w := hFrame w (Ne.symm ht)
    refine ⟨⟨hStop.trans h.running, ?_, ?_⟩, .inl ?_⟩
    · simp only
      rw [hPoller]
      exact h.poller
    · intro u hu
      by_cases hut : u = t
      · exact hut ▸ hPlace
      · simp only
        rw [hFrame u hut]
        exact h.others u hu
    · simp only [abstract, hPoller, hDeque]

omit [DecidableEq τ] in
/-- The polling thread puts nothing into the deque. -/
theorem Located.emplaced {q : State α τ} {loop : Loop α} (h : Located loop (q.pc w)) :
    emplaced q w = [] := by
  unfold Threads.emplaced
  split
  · rename_i x hPc
    rw [hPc] at h
    cases h with
    | awaiting hAt => exact hAt.elim
  · rfl

/-- A step of the polling thread, given where it leads and what it does to the deque. -/
theorem Coherent.advance {q : State α τ} {loop : Loop α} (h : Coherent w s)
    (hQueue : s.queue.advance w = some q) (hStop : q.stopWaiting = false)
    (hLocated : Located loop (q.pc w)) {enqueued : List α} :
    Coherent w { s with queue := q, loop := loop, enqueued := enqueued } := by
  refine ⟨hStop, hLocated, ?_⟩
  intro t ht
  simp only
  rw [TSDeque.advance_frame hQueue ht]
  exact h.others t ht

/-- A step of the polling thread. One case for each place in the operations it calls. -/
theorem poller_polls (h : Coherent w s) (hSound : (s.abstract w).Sound)
    (hStep : s.step w (.run (.advance w)) = some s') :
    Coherent w s' ∧ Matched (s.abstract w) (s'.abstract w) := by
  obtain ⟨q, hQueue, rfl⟩ := Option.map_eq_some_iff.mp hStep
  change s.queue.advance w = some q at hQueue
  have hRun := h.running
  have hLocated := h.poller
  have hNothing := hLocated.emplaced
  rw [hNothing, List.append_nil]
  have hAdvance := hQueue
  unfold State.advance at hAdvance
  generalize hLoop : s.loop = loop at hLocated
  generalize hPc : s.queue.pc w = p at hLocated
  cases hLocated with
  | idle | testing | body | handing => simp [hPc] at hAdvance
  | @awaiting n p hAt =>
    rw [← hPc] at hAt
    obtain ⟨hDeque, hStop, hNone, hNext⟩ := TSDeque.advance_awaiting hAt hRun hQueue
    have hLoop' : s.resumed w w = .waiting n := by simp [resumed, hNone, hLoop]
    rw [hLoop']
    have hBefore : (s.abstract w).poll = .waiting n := by
      simp only [abstract, hLoop]
      exact place_awaiting n hAt
    have hHand : (s.abstract w).incomingMessages = s.queue.deque := by
      simp [abstract, hLoop, inHand]
    rcases hNext with hAwaiting | ⟨hSome, hFound⟩
    · refine ⟨h.advance hQueue hStop (.awaiting hAwaiting), .inl ?_⟩
      simp only [abstract, hDeque, hLoop, inHand, place_awaiting n hAwaiting,
        place_awaiting n hAt]
    · refine ⟨h.advance hQueue hStop (hFound ▸ .found), .inr ⟨.poll .wake, ?_⟩⟩
      have hWake : (s.abstract w).incomingMessages.isEmpty = false := by
        simpa [hHand] using hSome
      simp only [Polling.pollsStep, Polling.step, hBefore, hWake]
      simp [abstract, hDeque, hLoop, inHand, hFound, place]
  | @found n =>
    simp only [hPc, Bool.false_eq_true, ↓reduceIte, Option.some.injEq] at hAdvance
    have hLoop' : s.resumed w w = .testing n := by
      simp [resumed, State.returned, hPc, hLoop, Loop.resume]
    rw [hLoop']
    subst hAdvance
    refine ⟨h.advance hQueue hRun ?_, .inl ?_⟩
    · simpa [State.releaseDeque, State.goto] using .testing
    · simp [abstract, State.releaseDeque, State.goto, hLoop, hPc, inHand, place]
  | @checkLock n hn =>
    simp only [hPc] at hAdvance
    have hLoop' : s.resumed w w = .checking n := by
      simp [resumed, State.returned, hPc, hLoop]
    rw [hLoop']
    have hq := State.acquireDeque_eq hAdvance
    subst hq
    refine ⟨h.advance hQueue hRun ?_, .inl ?_⟩
    · simpa [State.goto] using .checkAccess hn
    · simp [abstract, State.goto, hLoop, hPc, inHand, place]
  | @checkAccess n hn =>
    simp only [hPc, Option.some.injEq] at hAdvance
    have hLoop' : s.resumed w w = .checking n := by
      simp [resumed, State.returned, hPc, hLoop]
    rw [hLoop']
    subst hAdvance
    refine ⟨h.advance hQueue hRun ?_, .inr ⟨.poll .test, ?_⟩⟩
    · simpa [State.access, State.goto, Call.pushes, Call.act] using .checked
    · -- `Empty` looks at the deque, and with that the condition is decided
      have hBefore : (s.abstract w).poll = .testing (n + 1) := by
        simp [abstract, hLoop, hPc, place]
      simp only [Polling.pollsStep, Polling.step, hBefore]
      cases hDeque : s.queue.deque <;>
        simp [abstract, hLoop, hPc, inHand, place, State.access, State.goto, Call.pushes,
          Call.act, hDeque, hn]
  | @checked n isEmpty =>
    simp only [hPc, Option.some.injEq] at hAdvance
    have hLoop' : s.resumed w w = if isEmpty then .idle else .body n := by
      simp [resumed, State.returned, hPc, hLoop, Loop.resume]
    rw [hLoop']
    subst hAdvance
    cases isEmpty with
    | true =>
      refine ⟨h.advance hQueue hRun ?_, .inl ?_⟩
      · simpa [State.releaseDeque, State.goto] using .idle
      · simp [abstract, State.releaseDeque, State.goto, hLoop, hPc, inHand, place]
    | false =>
      refine ⟨h.advance hQueue hRun ?_, .inl ?_⟩
      · simpa [State.releaseDeque, State.goto] using .body
      · simp [abstract, State.releaseDeque, State.goto, hLoop, hPc, inHand, place]
  | @takeLock n =>
    simp only [hPc] at hAdvance
    have hLoop' : s.resumed w w = .taking n := by
      simp [resumed, State.returned, hPc, hLoop]
    rw [hLoop']
    have hq := State.acquireDeque_eq hAdvance
    subst hq
    refine ⟨h.advance hQueue hRun ?_, .inl ?_⟩
    · simpa [State.goto] using .takeAccess
    · simp [abstract, State.goto, hLoop, hPc, inHand, place]
  | @takeAccess n =>
    simp only [hPc, Option.some.injEq] at hAdvance
    have hLoop' : s.resumed w w = .taking n := by
      simp [resumed, State.returned, hPc, hLoop]
    rw [hLoop']
    -- the loop of atomic steps says that there is a front
    have hPopping : (s.abstract w).poll = .popping n := by
      simp [abstract, hLoop, place]
    have hSome : s.queue.deque ≠ [] := by
      simpa [abstract, hLoop, hPc, inHand] using hSound.front n hPopping
    obtain ⟨x, rest, hDeque⟩ := List.exists_cons_of_ne_nil hSome
    subst hAdvance
    refine ⟨h.advance hQueue hRun ?_, .inl ?_⟩
    · simpa [State.access, State.goto, Call.pushes, Call.act, hDeque] using .taken
    · simp [abstract, State.access, State.goto, Call.pushes, Call.act, hLoop, hPc, inHand, place,
        hDeque]
  | @taken n x =>
    simp only [hPc, Option.some.injEq] at hAdvance
    have hLoop' : s.resumed w w = .handing n (some x) := by
      simp [resumed, State.returned, hPc, hLoop, Loop.resume]
    rw [hLoop']
    subst hAdvance
    refine ⟨h.advance hQueue hRun ?_, .inl ?_⟩
    · simpa [State.releaseDeque, State.goto] using .handing
    · simp [abstract, State.releaseDeque, State.goto, hLoop, hPc, inHand, place]

/-- A call by the polling thread. -/
theorem Coherent.call {q : State α τ} {loop : Loop α} {c : Call α} (h : Coherent w s)
    (hQueue : s.queue.step (.call w c) = some q) (hLocated : Located loop c.entry) :
    Coherent w { s with queue := q, loop := loop } := by
  obtain ⟨-, rfl⟩ := TSDeque.call_eq hQueue
  refine ⟨h.running, ?_, ?_⟩
  · simpa using hLocated
  · intro t ht
    simp only
    rw [State.goto_pc_ne _ _ ht]
    exact h.others t ht

omit [DecidableEq τ] in
/-- The places of the loop outside the operations. -/
theorem Coherent.loop {loop : Loop α} (h : Coherent w s) (processed : List α)
    (hLocated : Located loop (s.queue.pc w)) :
    Coherent w { s with loop := loop, processed := processed } :=
  ⟨h.running, hLocated, h.others⟩

theorem test_polls (h : Coherent w s) (hStep : s.step w .test = some s') :
    Coherent w s' ∧ Matched (s.abstract w) (s'.abstract w) := by
  have hLocated := h.poller
  simp only [step] at hStep
  split at hStep
  · rename_i n hLoop
    rw [hLoop] at hLocated
    split at hStep
    · rename_i hZero
      cases hStep
      subst hZero
      generalize hPc : s.queue.pc w = p at hLocated
      cases hLocated
      refine ⟨h.loop s.processed (hPc ▸ .idle), .inr ⟨.poll .test, ?_⟩⟩
      simp [Polling.pollsStep, Polling.step, abstract, hLoop, place, inHand]
    · rename_i hMore
      obtain ⟨q, hQueue, rfl⟩ := Option.map_eq_some_iff.mp hStep
      have hn : n - 1 + 1 = n := by simp
      refine ⟨h.call hQueue (.checkLock (hn.symm ▸ hMore)), .inl ?_⟩
      obtain ⟨-, rfl⟩ := TSDeque.call_eq hQueue
      simp only [abstract, hLoop, State.goto_pc_self, Call.entry, place, inHand, hn]
      rfl
  · cases hStep

theorem handle_polls (h : Coherent w s) (hStep : s.step w .handle = some s') :
    Coherent w s' ∧ Matched (s.abstract w) (s'.abstract w) := by
  have hLocated := h.poller
  simp only [step] at hStep
  split at hStep
  · rename_i n x hLoop
    cases hStep
    rw [hLoop] at hLocated
    generalize hPc : s.queue.pc w = p at hLocated
    cases hLocated
    refine ⟨h.loop _ (hPc ▸ .testing), .inr ⟨.poll .pop, ?_⟩⟩
    simp [Polling.pollsStep, Polling.step, abstract, hLoop, place, inHand]
  · cases hStep

/-- **One step of the threads is at most one step of `Polling`.** -/
theorem step_polls {e : ThreadsEvent α τ} (h : Coherent w s) (hSound : (s.abstract w).Sound)
    (hStep : s.step w e = some s') :
    Coherent w s' ∧ Matched (s.abstract w) (s'.abstract w) := by
  cases e with
  | poll n wait =>
    have hLocated := h.poller
    simp only [step] at hStep
    split at hStep
    · rename_i hLoop
      split at hStep
      · rename_i hWait
        obtain ⟨q, hQueue, rfl⟩ := Option.map_eq_some_iff.mp hStep
        refine ⟨h.call hQueue (.awaiting trivial), .inr ⟨.poll (.call n wait), ?_⟩⟩
        obtain ⟨-, rfl⟩ := TSDeque.call_eq hQueue
        simp [Polling.pollsStep, Polling.step, hWait, abstract, hLoop, place, inHand,
          Call.entry, State.goto]
      · rename_i hWait
        cases hStep
        rw [hLoop] at hLocated
        generalize hPc : s.queue.pc w = p at hLocated
        cases hLocated
        refine ⟨h.loop s.processed (hPc ▸ .testing),
          .inr ⟨.poll (.call n wait), ?_⟩⟩
        simp [Polling.pollsStep, Polling.step, hWait, abstract, hLoop, place, inHand]
    · cases hStep
  | test => exact test_polls h hStep
  | pop =>
    simp only [step] at hStep
    split at hStep
    · rename_i n hLoop
      obtain ⟨q, hQueue, rfl⟩ := Option.map_eq_some_iff.mp hStep
      refine ⟨h.call hQueue .takeLock, .inl ?_⟩
      obtain ⟨-, rfl⟩ := TSDeque.call_eq hQueue
      simp [abstract, hLoop, place, inHand, Call.entry, State.goto]
    · cases hStep
  | handle => exact handle_polls h hStep
  | emplaceBack t x =>
    simp only [step] at hStep
    split at hStep
    · cases hStep
    · rename_i ht
      obtain ⟨q, hQueue, rfl⟩ := Option.map_eq_some_iff.mp hStep
      obtain ⟨-, rfl⟩ := TSDeque.call_eq hQueue
      have hPoller : (s.queue.goto t (Call.emplaceBack x).entry).pc w = s.queue.pc w :=
        State.goto_pc_ne _ _ (Ne.symm ht)
      refine ⟨⟨h.running, ?_, ?_⟩, .inl ?_⟩
      · simp only
        rw [hPoller]
        exact h.poller
      · intro u hu
        by_cases hut : u = t
        · subst hut
          simp [Call.entry, Pc.inEmplace]
        · simp only
          rw [State.goto_pc_ne _ _ hut]
          exact h.others u hu
      · simp only [abstract, hPoller]
        rfl
  | run e =>
    cases e with
    | call t c => cases hStep
    | advance t =>
      by_cases ht : t = w
      · subst ht
        exact poller_polls h hSound hStep
      · exact producer_polls h ht hStep
    | notify t woken => exact notify_polls h hStep
    | wakeSpuriously t =>
      obtain ⟨q, hQueue, rfl⟩ := Option.map_eq_some_iff.mp hStep
      simp only [State.step, Option.ite_none_right_eq_some, Option.some.injEq] at hQueue
      obtain ⟨-, rfl⟩ := hQueue
      exact ⟨⟨h.running, h.poller, h.others⟩, .inl rfl⟩

theorem coherent_init {initial : List α} (h : (threads w initial).init s) :
    Coherent w s ∧ s.abstract w = { incomingMessages := initial, enqueued := initial } := by
  obtain ⟨⟨-, -, -, hPc⟩, hValue, hLoop, hProcessed, hEnqueued⟩ := h
  obtain ⟨hDeque, hStop⟩ := Prod.mk.inj hValue
  refine ⟨⟨hStop, ?_, fun t _ => by simp [hPc t, Pc.inEmplace]⟩, ?_⟩
  · rw [hLoop, hPc w]
    exact .idle
  · simp [abstract, hLoop, hPc w, inHand, place, hDeque, hProcessed, hEnqueued]

/-- **The loop with its locks refines the loop of atomic steps**: in every run of
`PollMessages` on `TSDeque` beside any threads in `EmplaceBack`, what the messages and the
loop look like is a state that the loop of atomic steps reaches. So the messages processed,
the one in hand and those in the deque are all that were put in, in their order, and
`PopFront` never looks for the front of an empty deque. -/
theorem polls_of_threads {initial : List α} (h : Reach (threads w initial) Free s) :
    Reach (Polling.polls initial) Free (s.abstract w) ∧
      s.processed ++ inHand s.loop (s.queue.pc w) ++ s.queue.deque = s.enqueued ∧
      (s.queue.pc w = .access .popFront → s.queue.deque ≠ []) := by
  have hRefined : ∃ p, Reach (Polling.polls initial) Free p ∧ p = s.abstract w ∧ Coherent w s := by
    refine h.simulate (R := fun s p => p = s.abstract w ∧ Coherent w s) ?_ ?_
    · intro s hInit
      obtain ⟨hCoherent, hAbstract⟩ := coherent_init hInit
      exact ⟨_, rfl, hAbstract.symm, hCoherent⟩
    · rintro s e s' p ⟨rfl, hCoherent⟩ - hStep hReach
      obtain ⟨hNext, hMatched⟩ := step_polls hCoherent (Polling.sound_of_polls hReach) hStep
      rcases hMatched with hSame | ⟨e', hMove⟩
      · exact ⟨_, hSame ▸ hReach, rfl, hNext⟩
      · exact ⟨_, .step hReach trivial hMove, rfl, hNext⟩
  obtain ⟨p, hReach, rfl, hCoherent⟩ := hRefined
  have hSound := Polling.sound_of_polls hReach
  refine ⟨hReach, ?_, ?_⟩
  · rw [List.append_assoc]
    exact hSound.queue
  · intro hAccess
    have hLocated := hCoherent.poller
    rw [hAccess] at hLocated
    generalize hLoop : s.loop = loop at hLocated
    cases hLocated with
    | awaiting hAt => exact hAt.elim
    | @takeAccess n =>
      have hPopping := hSound.front n (by simp only [abstract, hLoop, place])
      simpa [abstract, hLoop, hAccess, inHand] using hPopping

/-- The loop sleeps in `Wait`, another thread emplaces 7 and wakes it, and `OnMessage` gets
7. -/
def pollAsleep : List (ThreadsEvent Nat Bool) :=
  [[.poll 2 true], List.replicate 6 (.run (.advance false)), [.emplaceBack true 7],
    List.replicate 3 (.run (.advance true)), [.run (.notify true (some false))],
    List.replicate 2 (.run (.advance true)), List.replicate 5 (.run (.advance false)), [.test],
    List.replicate 3 (.run (.advance false)), [.pop], List.replicate 3 (.run (.advance false)),
    [.handle]].flatten

theorem polls_of_threads_asleep : ∃ s : Threads Nat Bool,
    Reach (Polling.polls []) Free (s.abstract false) ∧
      s.processed ++ inHand s.loop (s.queue.pc false) ++ s.queue.deque = s.enqueued ∧
      s.processed = [7] := by
  have hQuiet : State.Quiet (τ := Bool) ⟨[], false, none, none, [], fun _ => (.outside : Pc Nat)⟩ :=
    ⟨rfl, rfl, rfl, fun _ => rfl⟩
  obtain ⟨s, hReach, hEnd⟩ := Reach.exists_of_free (M := threads false ([] : List Nat))
    (s := ⟨_, .idle, [], []⟩) ⟨hQuiet, rfl, rfl, rfl, rfl⟩ pollAsleep
    (fun s => s.processed == [7]) (by decide)
  obtain ⟨hPolls, hQueue, -⟩ := polls_of_threads hReach
  exact ⟨s, hPolls, hQueue, beq_iff_eq.mp hEnd⟩

end Threads

end MinecraftNetwork
