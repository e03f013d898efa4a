import Mathlib

/-!
# Polling the incoming messages

`PollMessages` is the same loop in `DedicatedServer` and in `DedicatedClient`. The thread
that runs it takes messages from the front of the incoming queue while the context thread
appends to it; a step is one operation on the deque. The elements are of any type, since
the loop does not look at them.
-/

namespace MinecraftNetwork

/-- Where the polling thread is. -/
inductive Poll
  | idle
  /-- In `m_IncomingMessages.Wait()`. -/
  | waiting (messageCount : UInt64)
  /-- Before the condition of the loop. -/
  | testing (messageCount : UInt64)
  /-- In the body of the loop, before `PopFront`. -/
  | popping (messageCount : UInt64)
  deriving DecidableEq, Repr

/-- The incoming queue and the thread that polls it. -/
structure Polling (α : Type) where
  incomingMessages : List α := []
  poll : Poll := .idle
  /-- The messages passed to `OnMessage`, in order. -/
  processed : List α := []
  /-- The messages put into the queue so far. -/
  enqueued : List α := []

inductive PollEvent
  | call (messageCount : UInt64) (waitForMessage : Bool)
  /-- `Wait` finds the deque not empty, and returns. -/
  | wake
  /-- `messageCount-- && !m_IncomingMessages.Empty()` -/
  | test
  /-- `PopFront`, and the call of `OnMessage`. -/
  | pop
  deriving DecidableEq, Repr

namespace Polling

variable {α : Type}

/-- `m_IncomingMessages.EmplaceBack` on the context thread. -/
def emplaceBack (p : Polling α) (x : α) : Polling α :=
  { p with incomingMessages := p.incomingMessages ++ [x], enqueued := p.enqueued ++ [x] }

def emplaceAll (p : Polling α) (xs : List α) : Polling α := xs.foldl emplaceBack p

/-- A step of the polling thread. -/
def step (p : Polling α) : PollEvent → Option (Polling α)
  | .call messageCount waitForMessage =>
    match p.poll with
    | .idle =>
      some { p with poll := if waitForMessage then .waiting messageCount else .testing messageCount }
    | _ => none
  | .wake =>
    match p.poll with
    | .waiting messageCount =>
      if p.incomingMessages.isEmpty then none else some { p with poll := .testing messageCount }
    | _ => none
  | .test =>
    match p.poll with
    | .testing messageCount =>
      some { p with poll :=
        if messageCount ≠ 0 ∧ !p.incomingMessages.isEmpty then .popping (messageCount - 1)
        else .idle }
    | _ => none
  | .pop =>
    match p.poll, p.incomingMessages with
    | .popping messageCount, x :: rest =>
      some { p with
        incomingMessages := rest, poll := .testing messageCount, processed := p.processed ++ [x] }
    | _, _ => none

/-- The branches of `step`. -/
inductive Step (p : Polling α) : PollEvent → Polling α → Prop
  | call {messageCount : UInt64} {waitForMessage : Bool} (hPoll : p.poll = .idle) :
    Step p (.call messageCount waitForMessage)
      { p with poll := if waitForMessage then .waiting messageCount else .testing messageCount }
  | wake {messageCount : UInt64} (hPoll : p.poll = .waiting messageCount)
      (hSome : p.incomingMessages ≠ []) : Step p .wake { p with poll := .testing messageCount }
  | test {messageCount : UInt64} (hPoll : p.poll = .testing messageCount) :
    Step p .test { p with poll :=
      if messageCount ≠ 0 ∧ !p.incomingMessages.isEmpty then .popping (messageCount - 1)
      else .idle }
  | pop {messageCount : UInt64} {x : α} {rest : List α} (hPoll : p.poll = .popping messageCount)
      (hFront : p.incomingMessages = x :: rest) :
    Step p .pop { p with
      incomingMessages := rest, poll := .testing messageCount, processed := p.processed ++ [x] }

theorem step_cases {p p' : Polling α} {event : PollEvent} (h : p.step event = some p') :
    Step p event p' := by
  cases event with
  | call messageCount waitForMessage =>
    simp only [step] at h
    split at h <;> cases h
    exact .call ‹_›
  | wake =>
    simp only [step] at h
    split at h
    · split at h <;> cases h
      rename_i hPoll hSome
      exact .wake hPoll (by simpa using hSome)
    · cases h
  | test =>
    simp only [step] at h
    split at h <;> cases h
    exact .test ‹_›
  | pop =>
    simp only [step] at h
    split at h <;> cases h
    rename_i hPoll hFront
    exact .pop hPoll hFront

/-- `PopFront` takes the first message and gives it to `OnMessage`. -/
theorem step_pop {p p' : Polling α} (h : p.step .pop = some p') :
    p.incomingMessages ≠ [] ∧ p'.incomingMessages = p.incomingMessages.tail := by
  cases step_cases h with
  | pop _ hFront => simp [hFront]

/-- No other step of the loop takes a message. -/
theorem step_queue {p p' : Polling α} {event : PollEvent} (hNot : event ≠ .pop)
    (h : p.step event = some p') : p'.incomingMessages = p.incomingMessages := by
  cases step_cases h with
  | call | wake | test => rfl
  | pop => exact absurd rfl hNot

/-- Only `PopFront` has a message processed, the first one. -/
theorem step_processed {p p' : Polling α} {event : PollEvent} (h : p.step event = some p') :
    event ≠ .pop ∧ p'.processed = p.processed ∨ event = .pop ∧
      ∀ x rest, p.incomingMessages = x :: rest → p'.processed = p.processed ++ [x] := by
  cases step_cases h with
  | call | wake | test => exact .inl ⟨by simp, rfl⟩
  | pop _ hFront =>
    refine .inr ⟨rfl, fun x rest hSame => ?_⟩
    rw [hFront] at hSame
    cases hSame
    rfl

/-- What has been processed and what is queued is what was put into the queue, and
`PopFront` finds an element. -/
structure Sound (p : Polling α) : Prop where
  queue : p.processed ++ p.incomingMessages = p.enqueued
  front : ∀ messageCount, p.poll = .popping messageCount → p.incomingMessages ≠ []

theorem Sound.emplaceBack {p : Polling α} (h : p.Sound) (x : α) : (p.emplaceBack x).Sound := by
  refine ⟨?_, fun _ _ => by simp [Polling.emplaceBack]⟩
  simp only [Polling.emplaceBack, ← h.queue, List.append_assoc]

theorem emplaceAll_enqueued (p : Polling α) (xs : List α) :
    (p.emplaceAll xs).enqueued = p.enqueued ++ xs := by
  induction xs generalizing p with
  | nil => exact (List.append_nil _).symm
  | cons x xs ih =>
    rw [emplaceAll, List.foldl_cons, ← emplaceAll, ih, Polling.emplaceBack, List.append_assoc]
    rfl

theorem Sound.emplaceAll {p : Polling α} (h : p.Sound) (xs : List α) : (p.emplaceAll xs).Sound := by
  induction xs generalizing p with
  | nil => exact h
  | cons x xs ih => exact ih (h.emplaceBack x)

theorem Sound.step {p p' : Polling α} {event : PollEvent} (h : p.Sound)
    (hStep : p.step event = some p') : p'.Sound ∧ p'.enqueued = p.enqueued := by
  have hQueue := h.queue
  cases step_cases hStep with
  | call =>
    refine ⟨⟨hQueue, fun n hn => ?_⟩, rfl⟩
    simp only at hn
    split at hn <;> cases hn
  | wake => exact ⟨⟨hQueue, fun n hn => by cases hn⟩, rfl⟩
  | test =>
    refine ⟨⟨hQueue, fun n hn => ?_⟩, rfl⟩
    simp only at hn
    split at hn
    · rename_i hMore
      simpa using hMore.2
    · cases hn
  | pop _ hFront =>
    refine ⟨⟨?_, fun n hn => by cases hn⟩, rfl⟩
    rw [hFront] at hQueue
    simpa using hQueue

end Polling

end MinecraftNetwork
