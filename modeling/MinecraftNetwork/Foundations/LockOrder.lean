import Mathlib

/-!
# Threads, mutexes and the order they are taken in

`Guards` says that a mutex is held exactly by the thread that is inside its critical
section; moving a thread, acquiring and releasing keep it.

`Snapshot` is one moment of any number of threads: who holds which mutex, and who waits to
acquire which. If every thread waits for a mutex ranked above all that it holds
(`Ordered`), then no thread waits for itself through others (`Ordered.acyclic`), and from
any thread the chain of holders ends (`Ordered.exists_end`).
-/

namespace Locking

/-! ## Critical sections -/

variable {τ P : Type} [DecidableEq τ]

/-- The mutex is held exactly by the thread whose place is inside the critical section. -/
def Guards (owner : Option τ) (place : τ → P) (inside : P → Prop) : Prop :=
  ∀ t, owner = some t ↔ inside (place t)

namespace Guards

variable {owner : Option τ} {place : τ → P} {inside : P → Prop} {t : τ} {p : P}

omit [DecidableEq τ] in
theorem of_outside (hOut : ∀ t, ¬ inside (place t)) : Guards none place inside := by
  intro t
  simp [hOut t]

/-- A thread moves and does not cross the border of the section. -/
theorem move (h : Guards owner place inside) (hSame : inside p ↔ inside (place t)) :
    Guards owner (Function.update place t p) inside := by
  intro u
  by_cases hu : u = t
  · subst hu
    rw [Function.update_self, hSame]
    exact h u
  · rw [Function.update_of_ne hu]
    exact h u

/-- A thread enters while nobody holds the mutex. -/
theorem acquire (h : Guards none place inside) (hIn : inside p) :
    Guards (some t) (Function.update place t p) inside := by
  intro u
  by_cases hu : u = t
  · subst hu
    simpa using hIn
  · rw [Function.update_of_ne hu, ← h u]
    simpa using fun hEq => hu hEq.symm

/-- The thread inside leaves. -/
theorem release (h : Guards owner place inside) (hWas : inside (place t)) (hOut : ¬ inside p) :
    Guards none (Function.update place t p) inside := by
  have hOwner : owner = some t := (h t).mpr hWas
  intro u
  by_cases hu : u = t
  · subst hu
    simpa using hOut
  · rw [Function.update_of_ne hu, ← h u, hOwner]
    simpa using fun hEq => hu hEq.symm

end Guards

/-! ## Waiting in order -/

/-- Who holds which mutex and who waits to acquire which, at one moment. -/
structure Snapshot (τ μ : Type) where
  holds : τ → μ → Prop
  wants : τ → μ → Prop

namespace Snapshot

variable {τ μ ρ : Type} [Preorder ρ] {rank : μ → ρ} {g : Snapshot τ μ}

/-- The edge from a thread to the holder of a mutex it waits for. -/
def WaitsFor (g : Snapshot τ μ) (t u : τ) : Prop :=
  ∃ m, g.wants t m ∧ g.holds u m

/-- Every thread waits for a mutex above all those it holds. -/
def Ordered (rank : μ → ρ) (g : Snapshot τ μ) : Prop :=
  ∀ t m held, g.wants t m → g.holds t held → rank held < rank m

namespace Ordered

theorem not_holds (h : Ordered rank g) {t : τ} {m : μ} (hWants : g.wants t m) :
    ¬ g.holds t m := by
  intro hHolds
  exact lt_irrefl _ (h t m m hWants hHolds)

/-- Along a chain of holders the mutexes rise. -/
theorem rises (h : Ordered rank g) {t u : τ} (hPath : Relation.TransGen g.WaitsFor t u) :
    ∃ m held, g.wants t m ∧ g.holds u held ∧ rank m ≤ rank held := by
  induction hPath with
  | single edge =>
    obtain ⟨m, hWants, hHolds⟩ := edge
    exact ⟨m, m, hWants, hHolds, le_refl _⟩
  | tail _ edge ih =>
    obtain ⟨m, held, hWants, hHolds, hLe⟩ := ih
    obtain ⟨next, hNext, hHeld⟩ := edge
    exact ⟨m, next, hWants, hHeld, hLe.trans (h _ next held hNext hHolds).le⟩

/-- **No cycle**: no thread waits for itself through any number of holders. -/
theorem acyclic (h : Ordered rank g) (t : τ) : ¬ Relation.TransGen g.WaitsFor t t := by
  intro hCycle
  obtain ⟨m, held, hWants, hHolds, hLe⟩ := h.rises hCycle
  exact lt_irrefl _ (hLe.trans_lt (h t m held hWants hHolds))

/-- **Every chain ends**: following holders leads to a thread that waits for no held
mutex. The induction is on the mutex waited for, upwards. -/
theorem exists_end [WellFoundedGT ρ] (h : Ordered rank g) (t : τ) :
    ∃ u, Relation.ReflTransGen g.WaitsFor t u ∧ ∀ v, ¬ g.WaitsFor u v := by
  have hHolder : ∀ r : ρ, ∀ u m, g.holds u m → rank m = r →
      ∃ v, Relation.ReflTransGen g.WaitsFor u v ∧ ∀ w, ¬ g.WaitsFor v w := by
    intro r
    induction r using WellFoundedGT.induction with
    | ind r ih =>
      intro u m hHolds hRank
      by_cases hEdge : ∃ v, g.WaitsFor u v
      · obtain ⟨v, next, hWants, hNext⟩ := hEdge
        have hRise : r < rank next := hRank ▸ h u next m hWants hHolds
        obtain ⟨last, hPath, hLast⟩ := ih _ hRise v next hNext rfl
        exact ⟨last, hPath.head ⟨next, hWants, hNext⟩, hLast⟩
      · exact ⟨u, .refl, fun v hv => hEdge ⟨v, hv⟩⟩
  by_cases hEdge : ∃ v, g.WaitsFor t v
  · obtain ⟨v, m, hWants, hHolds⟩ := hEdge
    obtain ⟨last, hPath, hLast⟩ := hHolder _ v m hHolds rfl
    exact ⟨last, hPath.head ⟨m, hWants, hHolds⟩, hLast⟩
  · exact ⟨t, .refl, fun v hv => hEdge ⟨v, hv⟩⟩

end Ordered

end Snapshot

end Locking
