import MinecraftNetwork.PollMessages
import MinecraftNetwork.Foundations.Runs

/-!
# One call of `PollMessages` takes a prefix of the queue

The context thread appends messages while one call of `PollMessages` is on its way. The
counter of the loop and the messages processed add up to the argument of the call
(`Counted`), so the call processes the first messages of what was in the queue and what was
appended, no more of them than it was asked for, and ends at that number or at a test that
has found the queue empty (`polls_prefix`).
-/

namespace MinecraftNetwork

open Runs

namespace Polling

variable {α : Type}

/-- The context thread appends a message, or the polling thread takes a step. -/
inductive CallEvent (α : Type)
  | emplaceBack (x : α)
  | poll (event : PollEvent)
  deriving DecidableEq, Repr

/-- A step beside or of one call: no second call begins. -/
def callStep (p : Polling α) : CallEvent α → Option (Polling α)
  | .emplaceBack x => some (p.emplaceBack x)
  | .poll (.call _ _) => none
  | .poll event => p.step event

/-- A call of `PollMessages` on a queue with the given content. -/
def calls (initial : List α) (messageCount : UInt64) (waitForMessage : Bool) :
    System (Polling α) (CallEvent α) where
  init p := ({ incomingMessages := initial, enqueued := initial } : Polling α).step
    (.call messageCount waitForMessage) = some p
  step := callStep

/-- The messages processed and those the loop may still process add up to the argument of
the call. -/
structure Counted (messageCount : UInt64) (p : Polling α) : Prop where
  bound : p.processed.length ≤ messageCount.toNat
  waiting : ∀ n, p.poll = .waiting n → p.processed.length + n.toNat = messageCount.toNat
  testing : ∀ n, p.poll = .testing n → p.processed.length + n.toNat = messageCount.toNat
  popping : ∀ n, p.poll = .popping n → p.processed.length + n.toNat + 1 = messageCount.toNat

theorem Counted.emplaceBack {messageCount : UInt64} {p : Polling α} (h : Counted messageCount p)
    (x : α) : Counted messageCount (p.emplaceBack x) :=
  ⟨h.bound, h.waiting, h.testing, h.popping⟩

/-- The loop goes on when its counter was not zero, and then the counter has not wrapped. -/
theorem toNat_pred {n : UInt64} (h : n ≠ 0) : (n - 1).toNat + 1 = n.toNat := by
  have hPos : n.toNat ≠ 0 := fun hZero => h (UInt64.toNat_inj.mp hZero)
  have hBound := n.toNat_lt
  rw [UInt64.toNat_sub]
  change (2 ^ 64 - 1 + n.toNat) % 2 ^ 64 + 1 = n.toNat
  omega

theorem Counted.step {messageCount : UInt64} {p p' : Polling α} {event : PollEvent}
    (h : Counted messageCount p) (hCall : ∀ n wait, event ≠ .call n wait)
    (hStep : p.step event = some p') : Counted messageCount p' := by
  cases step_cases hStep with
  | @call n wait => exact absurd rfl (hCall n wait)
  | @wake n hPoll =>
    have hCount := h.waiting n hPoll
    refine ⟨h.bound, ?_, ?_, ?_⟩
    · intro m hm
      cases hm
    · intro m hm
      cases hm
      exact hCount
    · intro m hm
      cases hm
  | @test n hPoll =>
    have hCount := h.testing n hPoll
    refine ⟨h.bound, ?_, ?_, ?_⟩
    · intro m hm
      simp only at hm
      split at hm <;> cases hm
    · intro m hm
      simp only at hm
      split at hm <;> cases hm
    · intro m hm
      simp only at hm
      split at hm
      · rename_i hMore
        cases hm
        have hPred := toNat_pred hMore.1
        change p.processed.length + (n - 1).toNat + 1 = messageCount.toNat
        omega
      · cases hm
  | @pop n x rest hPoll hFront =>
    have hCount := h.popping n hPoll
    refine ⟨?_, ?_, ?_, ?_⟩
    · rw [List.length_append, List.length_singleton]
      omega
    · intro m hm
      cases hm
    · intro m hm
      cases hm
      rw [List.length_append, List.length_singleton]
      omega
    · intro m hm
      cases hm

theorem counted_call {initial : List α} {messageCount : UInt64} {wait : Bool} {p : Polling α}
    (h : (calls initial messageCount wait).init p) :
    Counted messageCount p ∧ p.Sound ∧ initial <+: p.enqueued := by
  simp only [calls, Polling.step] at h
  cases h
  refine ⟨⟨Nat.zero_le _, ?_, ?_, ?_⟩, ⟨rfl, ?_⟩, List.prefix_rfl⟩
  · intro n hn
    simp only at hn
    split at hn
    · cases hn
      exact Nat.zero_add _
    · cases hn
  · intro n hn
    simp only at hn
    split at hn
    · cases hn
    · cases hn
      exact Nat.zero_add _
  · intro n hn
    simp only at hn
    split at hn <;> cases hn
  · intro n hn
    simp only at hn
    split at hn <;> cases hn

/-- A call keeps its count, and what was in the queue at its start is the first to go. -/
theorem counted_of_reach {initial : List α} {messageCount : UInt64} {wait : Bool} {p : Polling α}
    (h : Reach (calls initial messageCount wait) Free p) :
    Counted messageCount p ∧ p.Sound ∧ initial <+: p.enqueued := by
  refine h.invariant (I := fun p => Counted messageCount p ∧ p.Sound ∧ initial <+: p.enqueued)
    ?_ ?_
  · intro p hInit
    exact counted_call hInit
  rintro p event p' ⟨hCounted, hSound, hInitial⟩ - hStep
  cases event with
  | emplaceBack x =>
    cases hStep
    exact ⟨hCounted.emplaceBack x, hSound.emplaceBack x, hInitial.trans (List.prefix_append _ _)⟩
  | poll event =>
    have hCall : ∀ n wait, event ≠ .call n wait := by
      rintro n wait rfl
      cases hStep
    have hPoll : p.step event = some p' := by
      cases event with
      | call n wait => exact absurd rfl (hCall n wait)
      | wake | test | pop => exact hStep
    obtain ⟨hSound', hSame⟩ := hSound.step hPoll
    rw [hSame]
    exact ⟨hCounted.step hCall hPoll, hSound', hInitial⟩

/-- The call returns in a step: its loop ends. -/
def Returns (p p' : Polling α) : Prop := p.poll ≠ .idle ∧ p'.poll = .idle

/-- The loop ends at a test, and only with its counter at zero or the queue empty. -/
theorem step_returns {p p' : Polling α} {event : PollEvent} (hStep : p.step event = some p')
    (hReturns : Returns p p') : p.poll = .testing 0 ∨ p.incomingMessages = [] := by
  obtain ⟨hBusy, hIdle⟩ := hReturns
  cases step_cases hStep with
  | call hPoll => exact absurd hPoll hBusy
  | wake | pop => cases hIdle
  | @test n hPoll =>
    simp only at hIdle
    split at hIdle
    · cases hIdle
    · rename_i hNot
      by_cases hZero : n = 0
      · left
        rw [hPoll, hZero]
      · right
        simpa [hZero] using hNot

/-- **`PollMessages` takes a prefix of the queue**: in every state of a call the messages
given to `OnMessage` are the first `k` of the initial content and what was appended, the
rest is queued, `k` is at most the argument, `PopFront` finds a message, and a step that ends
the call finds `k` at the argument or the queue empty. -/
theorem polls_prefix {initial : List α} {messageCount : UInt64} {wait : Bool} {p : Polling α}
    (h : Reach (calls initial messageCount wait) Free p) :
    ∃ arrived k, p.enqueued = initial ++ arrived ∧ k ≤ messageCount.toNat ∧
      p.processed = (initial ++ arrived).take k ∧
      p.incomingMessages = (initial ++ arrived).drop k ∧
      (∀ n, p.poll = .popping n → p.incomingMessages ≠ []) ∧
      ∀ event p', (calls initial messageCount wait).step p event = some p' → Returns p p' →
        k = messageCount.toNat ∨ p.incomingMessages = [] := by
  obtain ⟨hCounted, hSound, ⟨arrived, hArrived⟩⟩ := counted_of_reach h
  have hQueue := hSound.queue
  refine ⟨arrived, p.processed.length, hArrived.symm, hCounted.bound, ?_, ?_, hSound.front, ?_⟩
  · rw [hArrived, ← hQueue, List.take_left' rfl]
  · rw [hArrived, ← hQueue, List.drop_left' rfl]
  · intro event p' hStep hReturns
    cases event with
    | emplaceBack x =>
      cases hStep
      exact absurd hReturns.2 hReturns.1
    | poll event =>
      have hPoll : p.step event = some p' := by
        cases event with
        | call n wait => cases hStep
        | wake | test | pop => exact hStep
      rcases step_returns hPoll hReturns with hZero | hEmpty
      · left
        simpa using hCounted.testing 0 hZero
      · exact .inr hEmpty

/-- Two messages are queued, a third arrives, and the call is asked for two. -/
theorem polls_prefix_two : ∃ p, Reach (calls [1, 2] 2 true) Free p ∧
    ∃ arrived k, p.enqueued = [1, 2] ++ arrived ∧ k ≤ 2 ∧ p.processed = [1, 2] := by
  obtain ⟨p, hReach, hEnd⟩ := Reach.exists_of_free (M := calls [1, 2] 2 true) rfl
    [.poll .wake, .poll .test, .poll .pop, .emplaceBack 3, .poll .test, .poll .pop, .poll .test]
    (fun p => p.processed == [1, 2]) (by decide)
  obtain ⟨arrived, k, hArrived, hBound, -⟩ := polls_prefix hReach
  exact ⟨p, hReach, arrived, k, hArrived, hBound, beq_iff_eq.mp hEnd⟩

end Polling

end MinecraftNetwork
