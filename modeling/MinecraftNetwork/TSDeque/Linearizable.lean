import MinecraftNetwork.Foundations.Linearizability
import MinecraftNetwork.TSDeque.Deadlock

/-!
# The deque looks atomic to its threads

`TSDeque` has two mutexes, a flag read under neither of them, and a `Wait` that tests the
deque, releases its mutex, tests the flag, sleeps and starts again. To the threads that use
it, it is nevertheless one object whose operations happen one after the other
(`orders_of_calls`): `atomic` is that object, the deque beside `m_StopWaiting`.

An operation on the deque takes effect at its access under `m_DequeMutex`, `StopWaiting`
where it sets the flag. `Wait` takes effect where it finds the deque not empty, or where it
finds the flag set after it has found the deque empty; what happens between the two tests
does not matter, because the object lets `Wait` return whenever the flag is set.

`Front`, `Back` and the emplacements hand back references; the result here is the element
referred to at the access.
-/

namespace MinecraftNetwork.TSDeque

open Runs Linearizability

variable {α τ : Type}

/-- The deque as one atomic object. `Wait` can happen only when it may return. -/
def atomic : Spec (List α × Bool) (Call α) (Result α)
  | (q, _), .stopWaiting => some ((q, true), .unit)
  | (q, stopped), .wait => if q.isEmpty && !stopped then none else some ((q, stopped), .unit)
  | (q, stopped), c => some (((c.act q).1, stopped), (c.act q).2)

/-- What a place says about the operation: whether it has taken effect, and its result. -/
def Pc.status : Pc α → Status (Call α) (Result α)
  | .outside => .idle
  | .lockDeque c | .access c => .pending c
  | .lockCondition _ r | .notify _ r | .unlockCondition _ r | .unlockDeque _ r => .effected r
  | .stopLock | .stopSet => .pending .stopWaiting
  | .stopNotify | .stopUnlock => .effected .unit
  | .waitUnlockDeque isEmpty => if isEmpty then .pending .wait else .effected .unit
  | .waitTestStop | .waitLockCondition | .waitSleep | .waitAsleep | .waitUnlockCondition =>
    .pending .wait

namespace State

/-- The content of the atomic object. -/
def value (s : State α τ) : List α × Bool := (s.deque, s.stopWaiting)

def status (s : State α τ) : τ → Status (Call α) (Result α) := Pc.status ∘ s.pc

/-- The value an operation hands back in the step of a thread that ends it. -/
def returned (s : State α τ) (t : τ) : Option (Result α) :=
  match s.pc t with
  | .unlockDeque _ r => some r
  | .stopUnlock => some .unit
  | .waitUnlockDeque isEmpty => if isEmpty then none else some .unit
  | .waitTestStop => if s.stopWaiting then some .unit else none
  | _ => none

/-- The calls and returns that the users of the deque see. -/
def shown (s : State α τ) : Event α τ → List (Mark τ (Call α) (Result α))
  | .call t c => [.invoke t c]
  | .advance t => (s.returned t).toList.map (.respond t)
  | .notify _ _ | .wakeSpuriously _ => []

end State

/-- `StopWaiting` never takes `m_DequeMutex`. -/
def Apart (s : State α τ) : Prop :=
  ∀ t, s.pc t ≠ .lockDeque .stopWaiting ∧ s.pc t ≠ .access .stopWaiting

/-- The deque with a given content, used by any threads. -/
def startingWith [DecidableEq τ] (v₀ : List α × Bool) : System (State α τ) (Event α τ) where
  init s := s.Quiet ∧ s.value = v₀
  step := State.step

/-! ## Every step is a move of the atomic object -/

section Moves

variable [DecidableEq τ] {s s' : State α τ} {t : τ} {p : Pc α}

theorem Apart.goto (h : Apart s) (hPc : s'.pc = Function.update s.pc t p)
    (hp : p ≠ .lockDeque .stopWaiting ∧ p ≠ .access .stopWaiting) : Apart s' := by
  intro u
  rw [hPc]
  by_cases hu : u = t
  · subst hu
    rwa [Function.update_self]
  · rw [Function.update_of_ne hu]
    exact h u

theorem State.status_goto (hPc : s'.pc = Function.update s.pc t p) :
    s'.status = Function.update s.status t p.status := by
  unfold State.status
  rw [hPc, Function.comp_update]

/-- A step inside an operation, before or after it takes effect. -/
theorem move_stay (hPc : s'.pc = Function.update s.pc t p) (hValue : s'.value = s.value)
    (hSame : p.status = (s.pc t).status) :
    Move atomic s.value s.status [] s'.value s'.status := by
  rw [State.status_goto hPc, hValue, hSame]
  have hStatus : Function.update s.status t (s.pc t).status = s.status :=
    Function.update_eq_self t s.status
  rw [hStatus]
  exact .stay

theorem move_respond {r : Result α} (hPc : s'.pc = Function.update s.pc t .outside)
    (hValue : s'.value = s.value) (hWas : (s.pc t).status = .effected r) :
    Move atomic s.value s.status [.respond t r] s'.value s'.status := by
  rw [State.status_goto hPc, hValue]
  exact .respond hWas

theorem move_effect {c : Call α} {r : Result α} (hPc : s'.pc = Function.update s.pc t p)
    (hWas : (s.pc t).status = .pending c) (hIs : p.status = .effected r)
    (hSpec : atomic s.value c = some (s'.value, r)) :
    Move atomic s.value s.status [] s'.value s'.status := by
  rw [State.status_goto hPc, hIs]
  exact .effect hWas hSpec

/-- `Wait` gives up. -/
theorem move_finish {c : Call α} {r : Result α} (hPc : s'.pc = Function.update s.pc t .outside)
    (hWas : (s.pc t).status = .pending c) (hSpec : atomic s.value c = some (s'.value, r)) :
    Move atomic s.value s.status [.respond t r] s'.value s'.status := by
  rw [State.status_goto hPc]
  exact .finish hWas hSpec

theorem move_invoke {c : Call α} (hWas : s.pc t = .outside) :
    Move atomic s.value s.status [.invoke t c] (s.goto t c.entry).value
      (s.goto t c.entry).status := by
  have hIdle : s.status t = .idle := congrArg Pc.status hWas
  have hEntry : c.entry.status = .pending c := by
    cases c <;> rfl
  have hStatus : (s.goto t c.entry).status = Function.update s.status t (.pending c) := by
    rw [State.status_goto (p := c.entry) rfl, hEntry]
  rw [hStatus]
  exact .invoke hIdle

/-- The access of an operation that is neither `Wait` nor `StopWaiting`. -/
theorem move_access {c : Call α} (hPc : s.pc t = .access c) (hStop : c ≠ .stopWaiting) :
    Move atomic s.value s.status [] (s.access t c).value (s.access t c).status := by
  have hPending : (s.pc t).status = .pending c := congrArg Pc.status hPc
  cases c with
  | stopWaiting => exact absurd rfl hStop
  | wait =>
    cases hDeque : s.deque with
    | nil =>
      -- not an effect: the deque is empty, and the flag is looked at next
      refine move_stay (t := t) (p := .waitUnlockDeque true) ?_ ?_ ?_
      · simp [State.access, State.goto, hDeque]
      · rfl
      · rw [hPc]
        rfl
    | cons a rest =>
      have hGoto : (s.access t .wait).pc =
          Function.update s.pc t (.waitUnlockDeque false) := by
        simp [State.access, State.goto, hDeque]
      apply move_effect hGoto hPending rfl
      simp [atomic, State.value, State.access, State.goto, Call.act, hDeque]
  | front | back | popFront | popBack | pushFront | pushBack | emplaceFront | emplaceBack | size
  | empty | clear =>
    exact move_effect (t := t) rfl hPending rfl rfl

theorem State.acquireDeque_eq (h : s.acquireDeque t p = some s') :
    s' = { s.goto t p with dequeOwner := some t } := by
  simp only [State.acquireDeque, Option.ite_none_right_eq_some, Option.some.injEq] at h
  exact h.2.symm

theorem State.acquireCondition_eq (h : s.acquireCondition t p = some s') :
    s' = { s.goto t p with conditionOwner := some t } := by
  simp only [State.acquireCondition, Option.ite_none_right_eq_some, Option.some.injEq] at h
  exact h.2.symm

/-- A step of a thread that does not notify. One case for each place of the source. -/
theorem move_advance (hApart : Apart s) (h : s.advance t = some s') :
    Apart s' ∧ Move atomic s.value s.status (s.shown (.advance t)) s'.value s'.status := by
  have hStop := hApart t
  unfold State.advance at h
  cases hPc : s.pc t with
  | outside | notify | stopNotify => simp [hPc] at h
  | lockDeque c =>
    simp only [hPc] at h
    rw [State.acquireDeque_eq h]
    refine ⟨hApart.goto rfl ⟨by simp, ?_⟩, ?_⟩
    · rw [hPc] at hStop
      simpa using hStop.1
    · simp only [State.shown, State.returned, hPc, Option.toList_none, List.map_nil]
      exact move_stay rfl rfl (by rw [hPc]; rfl)
  | access c =>
    simp only [hPc, Option.some.injEq] at h
    subst h
    have hNot : c ≠ .stopWaiting := by
      rintro rfl
      exact hStop.2 hPc
    refine ⟨?_, ?_⟩
    · refine hApart.goto rfl ?_
      cases c <;> simp [Call.pushes]
    · simp only [State.shown, State.returned, hPc, Option.toList_none, List.map_nil]
      exact move_access hPc hNot
  | lockCondition c r =>
    simp only [hPc] at h
    rw [State.acquireCondition_eq h]
    simp only [State.shown, State.returned, hPc, Option.toList_none, List.map_nil]
    exact ⟨hApart.goto rfl (by simp), move_stay rfl rfl (by rw [hPc]; rfl)⟩
  | unlockCondition c r =>
    simp only [hPc, Option.some.injEq] at h
    subst h
    simp only [State.shown, State.returned, hPc, Option.toList_none, List.map_nil]
    exact ⟨hApart.goto rfl (by simp), move_stay rfl rfl (by rw [hPc]; rfl)⟩
  | unlockDeque c r =>
    simp only [hPc, Option.some.injEq] at h
    subst h
    simp only [State.shown, State.returned, hPc, Option.toList_some, List.map_cons, List.map_nil]
    exact ⟨hApart.goto rfl (by simp), move_respond rfl rfl (by rw [hPc]; rfl)⟩
  | stopLock =>
    simp only [hPc] at h
    rw [State.acquireCondition_eq h]
    simp only [State.shown, State.returned, hPc, Option.toList_none, List.map_nil]
    exact ⟨hApart.goto rfl (by simp), move_stay rfl rfl (by rw [hPc]; rfl)⟩
  | stopSet =>
    simp only [hPc, Option.some.injEq] at h
    subst h
    have hPending : (s.pc t).status = .pending .stopWaiting := congrArg Pc.status hPc
    refine ⟨hApart.goto (t := t) (p := .stopNotify) rfl (by simp), ?_⟩
    simp only [State.shown, State.returned, hPc, Option.toList_none, List.map_nil]
    exact move_effect (t := t) (p := .stopNotify) rfl hPending rfl rfl
  | stopUnlock =>
    simp only [hPc, Option.some.injEq] at h
    subst h
    simp only [State.shown, State.returned, hPc, Option.toList_some, List.map_cons, List.map_nil]
    exact ⟨hApart.goto rfl (by simp), move_respond rfl rfl (by rw [hPc]; rfl)⟩
  | waitUnlockDeque isEmpty =>
    simp only [hPc, Option.some.injEq] at h
    subst h
    cases isEmpty with
    | true =>
      simp only [State.shown, State.returned, hPc, ↓reduceIte, Option.toList_none, List.map_nil]
      exact ⟨hApart.goto rfl (by simp), move_stay rfl rfl (by rw [hPc]; rfl)⟩
    | false =>
      simp only [State.shown, State.returned, hPc, Bool.false_eq_true, ↓reduceIte,
        Option.toList_some, List.map_cons, List.map_nil]
      exact ⟨hApart.goto rfl (by simp), move_respond rfl rfl (by rw [hPc]; rfl)⟩
  | waitTestStop =>
    simp only [hPc, Option.some.injEq] at h
    subst h
    have hPending : (s.pc t).status = .pending .wait := by rw [hPc]; rfl
    cases hFlag : s.stopWaiting with
    | true =>
      simp only [State.shown, State.returned, hPc, hFlag, ↓reduceIte, Option.toList_some,
        List.map_cons, List.map_nil]
      refine ⟨hApart.goto rfl (by simp), move_finish rfl hPending ?_⟩
      simp [atomic, State.value, State.goto, hFlag]
    | false =>
      simp only [State.shown, State.returned, hPc, hFlag, Bool.false_eq_true, ↓reduceIte,
        Option.toList_none, List.map_nil]
      exact ⟨hApart.goto rfl (by simp), move_stay rfl rfl (by rw [hPc]; rfl)⟩
  | waitLockCondition =>
    simp only [hPc] at h
    rw [State.acquireCondition_eq h]
    simp only [State.shown, State.returned, hPc, Option.toList_none, List.map_nil]
    exact ⟨hApart.goto rfl (by simp), move_stay rfl rfl (by rw [hPc]; rfl)⟩
  | waitSleep =>
    simp only [hPc, Option.some.injEq] at h
    subst h
    simp only [State.shown, State.returned, hPc, Option.toList_none, List.map_nil]
    refine ⟨hApart.goto (t := t) (p := .waitAsleep) rfl (by simp), ?_⟩
    exact move_stay (t := t) (p := .waitAsleep) rfl rfl (by rw [hPc]; rfl)
  | waitAsleep =>
    simp only [hPc] at h
    split at h
    · cases h
    · rw [State.acquireCondition_eq h]
      simp only [State.shown, State.returned, hPc, Option.toList_none, List.map_nil]
      exact ⟨hApart.goto rfl (by simp), move_stay rfl rfl (by rw [hPc]; rfl)⟩
  | waitUnlockCondition =>
    simp only [hPc, Option.some.injEq] at h
    subst h
    simp only [State.shown, State.returned, hPc, Option.toList_none, List.map_nil]
    exact ⟨hApart.goto rfl (by simp), move_stay rfl rfl (by rw [hPc]; rfl)⟩

/-- A notification is no move: the operation has taken effect before. -/
theorem move_notify {woken : Option τ} (hApart : Apart s) (h : s.notify t woken = some s') :
    Apart s' ∧ Move atomic s.value s.status [] s'.value s'.status := by
  unfold State.notify at h
  split at h
  · rename_i c r hPc
    obtain ⟨middle, hWake, rfl⟩ := Option.map_eq_some_iff.mp h
    obtain ⟨waiters, rfl⟩ := State.wake_eq hWake
    exact ⟨hApart.goto rfl (by simp), move_stay rfl rfl (by rw [hPc]; rfl)⟩
  · rename_i hPc
    obtain ⟨middle, hWake, rfl⟩ := Option.map_eq_some_iff.mp h
    obtain ⟨waiters, rfl⟩ := State.wake_eq hWake
    exact ⟨hApart.goto rfl (by simp), move_stay rfl rfl (by rw [hPc]; rfl)⟩
  · cases h

theorem move_step {e : Event α τ} (hApart : Apart s) (h : s.step e = some s') :
    Apart s' ∧ Move atomic s.value s.status (s.shown e) s'.value s'.status := by
  cases e with
  | call t c =>
    simp only [State.step] at h
    split at h
    · rename_i hPc
      cases h
      refine ⟨hApart.goto (t := t) (p := c.entry) rfl ?_, move_invoke hPc⟩
      cases c <;> simp [Call.entry]
    · cases h
  | advance t => exact move_advance hApart h
  | notify t woken => exact move_notify hApart h
  | wakeSpuriously t =>
    simp only [State.step, Option.ite_none_right_eq_some, Option.some.injEq] at h
    obtain ⟨-, rfl⟩ := h
    exact ⟨hApart, .stay⟩

end Moves

/-- **`TSDeque` is linearizable**: in every run of any threads with any operations, under
every schedule, with lost and spurious wakeups, the calls and returns are those of the
atomic object in some order that keeps each thread's own order and real time, and this
order leads from the initial content to the present one. -/
theorem orders_of_calls [DecidableEq τ] {v₀ : List α × Bool} {s : State α τ}
    {H : List (Mark τ (Call α) (Result α))}
    (h : Reach ((startingWith v₀).recorded State.shown) Free (s, H)) :
    ∃ L, Legal atomic v₀ L s.value ∧ Orders H L := by
  have hInit : ∀ s : State α τ, (startingWith v₀).init s →
      Apart s ∧ s.value = v₀ ∧ ∀ t, s.status t = .idle := by
    rintro s ⟨⟨-, -, -, hPc⟩, hValue⟩
    exact ⟨fun t => by simp [hPc t], hValue, fun t => congrArg Pc.status (hPc t)⟩
  have hStep : ∀ (s : State α τ) e s', Apart s → (startingWith v₀).step s e = some s' →
      Apart s' ∧ Move atomic s.value s.status (s.shown e) s'.value s'.status := by
    intro s e s' hApart hNext
    exact move_step hApart hNext
  exact orders_of_reach hInit hStep h

deriving instance DecidableEq for Result

/-- Thread `false` falls asleep in `Wait`, thread `true` emplaces 7 and wakes it, and `false`
goes on to take the element. -/
def sleepAndTake : List (Event Nat Bool) :=
  [[.call false .wait], List.replicate 6 (.advance false), [.call true (.emplaceBack 7)],
    List.replicate 3 (.advance true), [.notify true (some false)],
    List.replicate 2 (.advance true), List.replicate 5 (.advance false),
    [.call false .popFront], List.replicate 3 (.advance false)].flatten

theorem orders_of_calls_asleep : ∃ (s : State Nat Bool)
    (H : List (Mark Bool (Call Nat) (Result Nat))) (L : List (Entry Bool (Call Nat) (Result Nat))),
    Legal atomic ([], false) L s.value ∧ Orders H L ∧
      responses false H = [.unit, .element (some 7)] := by
  have hQuiet : State.Quiet (τ := Bool) ⟨[], false, none, none, [], fun _ => (.outside : Pc Nat)⟩ :=
    ⟨rfl, rfl, rfl, fun _ => rfl⟩
  obtain ⟨⟨s, H⟩, hReach, hEnd⟩ := Reach.exists_of_free
    (M := (startingWith (α := Nat) (τ := Bool) ([], false)).recorded State.shown)
    (s := (_, [])) ⟨⟨hQuiet, rfl⟩, rfl⟩ sleepAndTake
    (fun p => responses false p.2 == [.unit, .element (some 7)]) (by decide)
  obtain ⟨L, hLegal, hOrders⟩ := orders_of_calls hReach
  exact ⟨s, H, L, hLegal, hOrders, beq_iff_eq.mp hEnd⟩

end MinecraftNetwork.TSDeque
