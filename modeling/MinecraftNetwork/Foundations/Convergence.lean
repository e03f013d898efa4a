import MinecraftNetwork.Foundations.Runs

/-!
# Systems whose work comes to an end

Some steps of a system are its work; the environment takes others, which leave the work as it
is. The work comes to an end if each step of it lowers a measure, and it ends well if a state
in which no work can be done is a good one:

* `Converges.bound`: the measure at the start bounds the steps of work of every run;
* `Converges.rest`: a run that has come to rest has reached the goal;
* `Converges.exists_rest`: every run can be continued, by work alone, until it rests.

Nothing is assumed of the order of the steps, and nothing of the environment but that its
steps do not raise the measure.
-/

namespace Runs

variable {S E : Type} {M : System S E} {work idle : S → E → Prop}

/-- A run in which `n` steps are work, and the others are idle. -/
inductive Works (M : System S E) (work idle : S → E → Prop) : Nat → S → S → Prop
  | refl {s : S} : Works M work idle 0 s s
  | work {n : Nat} {s t u : S} {e : E} (prior : Works M work idle n s t) (hWork : work t e)
      (hStep : M.step t e = some u) : Works M work idle (n + 1) s u
  | idle {n : Nat} {s t u : S} {e : E} (prior : Works M work idle n s t) (hIdle : idle t e)
      (hStep : M.step t e = some u) : Works M work idle n s u

/-- No work can be done. -/
def AtRest (M : System S E) (work : S → E → Prop) (s : S) : Prop := ∀ e, work s e → M.step s e = none

theorem Works.trans {n k : Nat} {s t u : S} (h : Works M work idle n s t)
    (h' : Works M work idle k t u) : Works M work idle (n + k) s u := by
  induction h' with
  | refl => exact h
  | work _ hWork hStep ih => exact .work (ih h) hWork hStep
  | idle _ hIdle hStep ih => exact .idle (ih h) hIdle hStep

/-- Each step of work lowers the measure, and rest is a goal. -/
structure Converges (M : System S E) (work idle : S → E → Prop) (I : S → Prop) (μ : S → Nat)
    (G : S → Prop) : Prop where
  lowers : ∀ {s e t}, I s → work s e → M.step s e = some t → I t ∧ μ t < μ s
  keeps : ∀ {s e t}, I s → idle s e → M.step s e = some t → I t ∧ μ t ≤ μ s
  goal : ∀ {s}, I s → AtRest M work s → G s

namespace Converges

variable {I G : S → Prop} {μ : S → Nat}

/-- **There is no more work than the measure says.** -/
theorem bound (h : Converges M work idle I μ G) {n : Nat} {s t : S} (hs : I s)
    (hRun : Works M work idle n s t) : I t ∧ n + μ t ≤ μ s := by
  induction hRun with
  | refl => exact ⟨hs, by omega⟩
  | work _ hWork hStep ih =>
    obtain ⟨hI, hLe⟩ := ih hs
    obtain ⟨hI', hLess⟩ := h.lowers hI hWork hStep
    exact ⟨hI', by omega⟩
  | idle _ hIdle hStep ih =>
    obtain ⟨hI, hLe⟩ := ih hs
    obtain ⟨hI', hLess⟩ := h.keeps hI hIdle hStep
    exact ⟨hI', by omega⟩

theorem rest (h : Converges M work idle I μ G) {n : Nat} {s t : S} (hs : I s)
    (hRun : Works M work idle n s t) (hRest : AtRest M work t) : G t :=
  h.goal (h.bound hs hRun).1 hRest

/-- **Work alone leads to a goal**, by induction on the measure. -/
theorem exists_rest (h : Converges M work idle I μ G) {s : S} (hs : I s) :
    ∃ n t, Works M work idle n s t ∧ AtRest M work t ∧ G t := by
  induction hMeasure : μ s using Nat.strong_induction_on generalizing s with
  | _ m ih =>
    by_cases hRest : AtRest M work s
    · exact ⟨0, s, .refl, hRest, h.goal hs hRest⟩
    · unfold AtRest at hRest
      push Not at hRest
      obtain ⟨e, hWork, hSome⟩ := hRest
      obtain ⟨t, hStep⟩ := Option.ne_none_iff_exists'.mp hSome
      obtain ⟨ht, hLess⟩ := h.lowers hs hWork hStep
      obtain ⟨n, u, hRun, hEnd⟩ := ih (μ t) (by omega) ht rfl
      exact ⟨_, u, (Works.work .refl hWork hStep).trans hRun, hEnd⟩

end Converges

end Runs
