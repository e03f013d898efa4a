import MinecraftNetwork.Foundations.Runs

/-!
# The thread-safe deque, one lock step at a time

`net::TSDeque` guards a deque with one mutex and a condition variable with a second one.
Every operation but `StopWaiting` and the sleeping part of `Wait` runs under
`m_DequeMutex`; the pushes and emplacements take `m_ContidionMutex` inside it to notify.
The model has one program counter for each thread of an arbitrary type and takes as one
step what is atomic in the source: the acquisition or release of a mutex, the access to
the deque or to `m_StopWaiting`, the condition wait (which releases the mutex and goes to
sleep), and the notification.

A thread in `m_Contidion.wait` is asleep while it is in `waiters`. A notification or a
spurious wakeup takes it out of `waiters`; it then has to acquire `m_ContidionMutex`
again before `wait` returns.
-/

namespace MinecraftNetwork.TSDeque

/-- The public operations. The argument of an emplacement is the element it constructs. -/
inductive Call (α : Type)
  | front
  | back
  | popFront
  | popBack
  | pushFront (a : α)
  | pushBack (a : α)
  | emplaceFront (a : α)
  | emplaceBack (a : α)
  | size
  | empty
  | clear
  | stopWaiting
  | wait

/-- What an operation hands back: nothing, an element, a size, or a truth value. -/
inductive Result (α : Type)
  | unit
  | element (a : Option α)
  | size (n : Nat)
  | flag (b : Bool)

/-- The operations that notify a waiting thread of a new element. -/
def Call.pushes {α : Type} : Call α → Bool
  | .pushFront _ | .pushBack _ | .emplaceFront _ | .emplaceBack _ => true
  | _ => false

/-- What an operation does to `m_Deque` while it holds `m_DequeMutex`, and what it returns.
`front` and the pops of an empty deque are undefined in the source; here they change
nothing. -/
def Call.act {α : Type} : Call α → List α → List α × Result α
  | .front, q => (q, .element q.head?)
  | .back, q => (q, .element q.getLast?)
  | .popFront, q => (q.tail, .element q.head?)
  | .popBack, q => (q.dropLast, .element q.getLast?)
  | .pushFront a, q => (a :: q, .unit)
  | .pushBack a, q => (q ++ [a], .unit)
  | .emplaceFront a, q => (a :: q, .element (some a))
  | .emplaceBack a, q => (q ++ [a], .element (some a))
  | .size, q => (q, .size q.length)
  | .empty, q => (q, .flag q.isEmpty)
  | .clear, _ => ([], .unit)
  | .stopWaiting, q => (q, .unit)
  | .wait, q => (q, .flag q.isEmpty)

/-- The next step of a thread. -/
inductive Pc (α : Type)
  /-- In no operation of the deque. -/
  | outside
  /-- At the acquisition of `m_DequeMutex`. -/
  | lockDeque (c : Call α)
  /-- At the access to `m_Deque`, under `m_DequeMutex`. -/
  | access (c : Call α)
  /-- At the acquisition of `m_ContidionMutex` by a push, under `m_DequeMutex`. -/
  | lockCondition (c : Call α) (r : Result α)
  /-- At `notify_one` of a push, under both mutexes. -/
  | notify (c : Call α) (r : Result α)
  | unlockCondition (c : Call α) (r : Result α)
  | unlockDeque (c : Call α) (r : Result α)
  /-- `StopWaiting` at the acquisition of `m_ContidionMutex`. -/
  | stopLock
  /-- At `m_StopWaiting = true`. -/
  | stopSet
  | stopNotify
  | stopUnlock
  /-- `Wait` at the release of `m_DequeMutex` by `Empty()`, with the value it returns. -/
  | waitUnlockDeque (isEmpty : Bool)
  /-- `Wait` at the test of `m_StopWaiting`. -/
  | waitTestStop
  /-- `Wait` at the acquisition of `m_ContidionMutex`. -/
  | waitLockCondition
  /-- At `m_Contidion.wait`, under `m_ContidionMutex`. -/
  | waitSleep
  /-- Inside `m_Contidion.wait`: asleep, or at the acquisition of the mutex once woken. -/
  | waitAsleep
  | waitUnlockCondition

/-- The first step of an operation. -/
def Call.entry {α : Type} : Call α → Pc α
  | .stopWaiting => .stopLock
  | c => .lockDeque c

structure State (α τ : Type) where
  deque : List α
  stopWaiting : Bool
  dequeOwner : Option τ
  conditionOwner : Option τ
  /-- The threads asleep in `m_Contidion.wait` with no notification. -/
  waiters : List τ
  pc : τ → Pc α

inductive Event (α τ : Type)
  /-- A thread calls an operation. -/
  | call (t : τ) (c : Call α)
  /-- A thread takes its next step, which is not a notification. -/
  | advance (t : τ)
  /-- A thread notifies; the scheduler chooses whom `notify_one` wakes. -/
  | notify (t : τ) (woken : Option τ)
  /-- A sleeping thread wakes without a notification. -/
  | wakeSpuriously (t : τ)

variable {α τ : Type} [DecidableEq τ]

namespace State

def goto (s : State α τ) (t : τ) (p : Pc α) : State α τ :=
  { s with pc := Function.update s.pc t p }

def acquireDeque (s : State α τ) (t : τ) (p : Pc α) : Option (State α τ) :=
  if s.dequeOwner = none then some { s.goto t p with dequeOwner := some t } else none

def releaseDeque (s : State α τ) (t : τ) (p : Pc α) : State α τ :=
  { s.goto t p with dequeOwner := none }

def acquireCondition (s : State α τ) (t : τ) (p : Pc α) : Option (State α τ) :=
  if s.conditionOwner = none then some { s.goto t p with conditionOwner := some t } else none

def releaseCondition (s : State α τ) (t : τ) (p : Pc α) : State α τ :=
  { s.goto t p with conditionOwner := none }

/-- The access to `m_Deque`. `Wait` looks at it through `Empty()`, a push goes on to notify,
every other operation goes on to return. -/
def access (s : State α τ) (t : τ) (c : Call α) : State α τ :=
  let next : Pc α :=
    match c with
    | .wait => .waitUnlockDeque s.deque.isEmpty
    | c => if c.pushes then .lockCondition c (c.act s.deque).2 else .unlockDeque c (c.act s.deque).2
  { s.goto t next with deque := (c.act s.deque).1 }

/-- `notify_one`: one sleeping thread is woken if there is one. -/
def wake (s : State α τ) : Option τ → Option (State α τ)
  | none => if s.waiters = [] then some s else none
  | some w => if w ∈ s.waiters then some { s with waiters := s.waiters.erase w } else none

/-- The next step of a thread that does not notify. -/
def advance (s : State α τ) (t : τ) : Option (State α τ) :=
  match s.pc t with
  | .outside | .notify _ _ | .stopNotify => none
  | .lockDeque c => s.acquireDeque t (.access c)
  | .access c => some (s.access t c)
  | .lockCondition c r => s.acquireCondition t (.notify c r)
  | .unlockCondition c r => some (s.releaseCondition t (.unlockDeque c r))
  | .unlockDeque _ _ => some (s.releaseDeque t .outside)
  | .stopLock => s.acquireCondition t .stopSet
  | .stopSet => some { s.goto t .stopNotify with stopWaiting := true }
  | .stopUnlock => some (s.releaseCondition t .outside)
  -- while (Empty() && !m_StopWaiting)
  | .waitUnlockDeque isEmpty => some (s.releaseDeque t (if isEmpty then .waitTestStop else .outside))
  | .waitTestStop => some (s.goto t (if s.stopWaiting then .outside else .waitLockCondition))
  | .waitLockCondition => s.acquireCondition t .waitSleep
  | .waitSleep => some { s.releaseCondition t .waitAsleep with waiters := t :: s.waiters }
  | .waitAsleep => if t ∈ s.waiters then none else s.acquireCondition t .waitUnlockCondition
  | .waitUnlockCondition => some (s.releaseCondition t (.lockDeque .wait))

/-- The notification of a push or of `StopWaiting`. -/
def notify (s : State α τ) (t : τ) (woken : Option τ) : Option (State α τ) :=
  match s.pc t with
  | .notify c r => (s.wake woken).map (·.goto t (.unlockCondition c r))
  | .stopNotify => (s.wake woken).map (·.goto t .stopUnlock)
  | _ => none

def step (s : State α τ) : Event α τ → Option (State α τ)
  | .call t c =>
    match s.pc t with
    | .outside => some (s.goto t c.entry)
    | _ => none
  | .advance t => s.advance t
  | .notify t woken => s.notify t woken
  | .wakeSpuriously t =>
    if t ∈ s.waiters then some { s with waiters := s.waiters.erase t } else none

/-- No thread is in an operation and no mutex is held. -/
def Quiet (s : State α τ) : Prop :=
  s.dequeOwner = none ∧ s.conditionOwner = none ∧ s.waiters = [] ∧ ∀ t, s.pc t = .outside

end State

/-- The deque as its threads drive it, from any content. -/
def system (α τ : Type) [DecidableEq τ] : Runs.System (State α τ) (Event α τ) where
  init := State.Quiet
  step := State.step

end MinecraftNetwork.TSDeque
