import Mathlib

/-!
# Runs of guarded transition systems

A system is a predicate of initial states and a step function that is undefined where
an event cannot happen. `Reach ok` collects the states of the runs all of whose steps
satisfy `ok`: with `ok` always true these are the reachable states, and any other `ok`
describes the runs of an environment that keeps a promise.

* `Reach.invariant` is the induction rule.
* `Reach.mono` weakens the promise.
* `Reach.of_replay` and `Reach.exists_of_replay` turn the execution of a list of events
  into a run; `Reach.exists_of_free` and `Reach.exists_of_checked` are the two uses of it.
* `System.recorded` is the same system with the labels of its steps so far beside the state.
* `Reach.simulate` carries a run along a relation to a second system.
-/

namespace Runs

/-- Initial states and a guarded, executable step function. -/
structure System (S E : Type) where
  init : S → Prop
  step : S → E → Option S

variable {S E : Type}

/-- The states of the runs of `M` in which every step satisfies `ok`. -/
inductive Reach (M : System S E) (ok : S → E → Prop) : S → Prop
  | init {s : S} (hInit : M.init s) : Reach M ok s
  | step {s t : S} {e : E} (prior : Reach M ok s) (hOk : ok s e)
      (hStep : M.step s e = some t) : Reach M ok t

/-- No promise about the steps of a run. -/
def Free (_ : S) (_ : E) : Prop := True

namespace Reach

variable {M : System S E} {ok : S → E → Prop}

theorem invariant {I : S → Prop} (hInit : ∀ s, M.init s → I s)
    (hStep : ∀ s e t, I s → ok s e → M.step s e = some t → I t) {s : S}
    (h : Reach M ok s) : I s := by
  induction h with
  | init hs => exact hInit _ hs
  | step _ hOk hs ih => exact hStep _ _ _ ih hOk hs

theorem mono {ok' : S → E → Prop} (hImp : ∀ s e, ok s e → ok' s e) {s : S}
    (h : Reach M ok s) : Reach M ok' s := by
  induction h with
  | init hs => exact .init hs
  | step _ hOk hs ih => exact .step ih (hImp _ _ hOk) hs

/-- Execute a list of events, stopping where an event is refused or breaks the promise. -/
def replay (M : System S E) (okB : S → E → Bool) : S → List E → Option S
  | s, [] => some s
  | s, e :: rest => if okB s e then (M.step s e).bind (replay M okB · rest) else none

theorem of_replay {okB : S → E → Bool} (hOk : ∀ s e, okB s e = true → ok s e)
    {events : List E} {s t : S} (h : Reach M ok s)
    (hRun : replay M okB s events = some t) : Reach M ok t := by
  induction events generalizing s with
  | nil =>
    cases hRun
    exact h
  | cons e rest ih =>
    simp only [replay] at hRun
    split at hRun
    · rename_i hGuard
      obtain ⟨middle, hs, hRest⟩ := Option.bind_eq_some_iff.mp hRun
      exact ih (.step h (hOk s e hGuard) hs) hRest
    · cases hRun

/-- A replay that ends in a state with a property reaches such a state. -/
theorem exists_of_replay {okB : S → E → Bool} (hOk : ∀ s e, okB s e = true → ok s e)
    {s : S} (hInit : M.init s) (events : List E) (p : S → Bool)
    (hRun : (replay M okB s events).any p = true) : ∃ t, Reach M ok t ∧ p t = true := by
  cases hEnd : replay M okB s events with
  | none => simp [hEnd] at hRun
  | some t => exact ⟨t, of_replay hOk (.init hInit) hEnd, by simpa [hEnd] using hRun⟩

/-- The steps are free. -/
theorem exists_of_free {s : S} (hInit : M.init s) (events : List E) (p : S → Bool)
    (hRun : (replay M (fun _ _ => true) s events).any p = true) :
    ∃ t, Reach M Free t ∧ p t = true :=
  exists_of_replay (fun _ _ _ => trivial) hInit events p hRun

/-- The promise is checked at every step. -/
theorem exists_of_checked (ok : S → E → Prop) [∀ s e, Decidable (ok s e)] {s : S}
    (hInit : M.init s) (events : List E) (p : S → Bool)
    (hRun : (replay M (fun s e => decide (ok s e)) s events).any p = true) :
    ∃ t, Reach M ok t ∧ p t = true :=
  exists_of_replay (fun _ _ => of_decide_eq_true) hInit events p hRun

/-- **Simulation**: a relation that holds at the start and that every step keeps by some
further run of a second system holds along a whole run. -/
theorem simulate {T F : Type} {N : System T F} {ok' : T → F → Prop} {R : S → T → Prop}
    (hInit : ∀ s, M.init s → ∃ a, N.init a ∧ R s a)
    (hStep : ∀ s e t a, R s a → ok s e → M.step s e = some t → Reach N ok' a →
      ∃ b, Reach N ok' b ∧ R t b) {s : S} (h : Reach M ok s) : ∃ a, Reach N ok' a ∧ R s a := by
  induction h with
  | init hs =>
    obtain ⟨a, hA, hR⟩ := hInit _ hs
    exact ⟨a, .init hA, hR⟩
  | step _ hOk hs ih =>
    obtain ⟨a, hA, hR⟩ := ih
    exact hStep _ _ _ a hR hOk hs hA

end Reach

/-- The system with a record of what its steps show to the outside. -/
def System.recorded {L : Type} (M : System S E) (label : S → E → List L) :
    System (S × List L) E where
  init p := M.init p.1 ∧ p.2 = []
  step p e := (M.step p.1 e).map fun t => (t, p.2 ++ label p.1 e)

end Runs
