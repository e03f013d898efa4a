import MinecraftNetwork.Foundations.Runs

/-!
# Linearizability

An object is used by threads of any type; a history is the list of their invocations and
responses. A history is linearizable if its operations can be put in one order such that
the results are those of a sequential object, each thread sees its own operations in its
own order, and an operation that has returned before another was invoked stands before it
(`Orders`). The last condition is stated by cutting: at every moment of the history the
order can be cut so that all operations that have returned stand before the cut and none
that has not been invoked.

To prove it for a system one names, for each state, the content of the object and where
every thread is in its operation (`Status`), and shows that a step that touches them is one
of `Move`: an invocation, the moment an operation takes effect, its response, or the last
two at once. `orders_of_reach` is the rule.
-/

namespace Linearizability

open Runs

/-- What a history shows: an operation is called, or returns. -/
inductive Mark (τ Op Res : Type)
  | invoke (t : τ) (op : Op)
  | respond (t : τ) (r : Res)
  deriving DecidableEq, Repr

/-- An operation in the sequential order. -/
structure Entry (τ Op Res : Type) where
  thread : τ
  op : Op
  result : Res

/-- Where a thread is: in no operation, in one that has not taken effect, or in one that
has and will return this result. -/
inductive Status (Op Res : Type)
  | idle
  | pending (op : Op)
  | effected (r : Res)

variable {τ V Op Res : Type}

/-- The sequential object: an operation may not be able to take effect. -/
abbrev Spec (V Op Res : Type) := V → Op → Option (V × Res)

/-- The entries are a run of the sequential object. -/
inductive Legal (spec : Spec V Op Res) (v₀ : V) : List (Entry τ Op Res) → V → Prop
  | nil : Legal spec v₀ [] v₀
  | snoc {L : List (Entry τ Op Res)} {v v' : V} {t : τ} {op : Op} {r : Res}
      (prior : Legal spec v₀ L v) (hSpec : spec v op = some (v', r)) :
      Legal spec v₀ (L ++ [⟨t, op, r⟩]) v'

namespace Status

/-- The operation that has not taken effect. -/
def waiting : Status Op Res → List Op
  | .pending op => [op]
  | _ => []

/-- The result that has not been handed back. -/
def owed : Status Op Res → List Res
  | .effected r => [r]
  | _ => []

end Status

variable [DecidableEq τ]

/-- The operations a thread has invoked. -/
def invocations (t : τ) (H : List (Mark τ Op Res)) : List Op :=
  H.filterMap fun a =>
    match a with
    | .invoke u op => if u = t then some op else none
    | .respond _ _ => none

/-- The results handed back to a thread. -/
def responses (t : τ) (H : List (Mark τ Op Res)) : List Res :=
  H.filterMap fun a =>
    match a with
    | .invoke _ _ => none
    | .respond u r => if u = t then some r else none

/-- The entries of one thread. -/
def ofThread (t : τ) (L : List (Entry τ Op Res)) : List (Entry τ Op Res) :=
  L.filter fun e => e.thread = t

/-- The cut of the order by a moment of the history. -/
def Cut (A : List (Mark τ Op Res)) (L : List (Entry τ Op Res)) : Prop :=
  ∃ L₁, L₁ <+: L ∧ ∀ t, (responses t A).length ≤ (ofThread t L₁).length ∧
    (ofThread t L₁).length ≤ (invocations t A).length

/-- The order explains the history. -/
structure Orders (H : List (Mark τ Op Res)) (L : List (Entry τ Op Res)) : Prop where
  /-- The operations of a thread are the ones it has invoked; the last may be missing. -/
  invoked : ∀ t, (ofThread t L).map Entry.op <+: invocations t H
  /-- The results handed back are those of the entries. -/
  responded : ∀ t, responses t H <+: (ofThread t L).map Entry.result
  /-- Real time: an operation that has returned stands before one invoked later. -/
  realTime : ∀ A, A <+: H → Cut A L

/-! ## one more mark -/

section Projections

variable {t u : τ}

theorem invocations_append (t : τ) (H H' : List (Mark τ Op Res)) :
    invocations t (H ++ H') = invocations t H ++ invocations t H' :=
  List.filterMap_append

theorem responses_append (t : τ) (H H' : List (Mark τ Op Res)) :
    responses t (H ++ H') = responses t H ++ responses t H' :=
  List.filterMap_append

theorem ofThread_append (t : τ) (L L' : List (Entry τ Op Res)) :
    ofThread t (L ++ L') = ofThread t L ++ ofThread t L' :=
  List.filter_append ..

@[simp] theorem invocations_invoke (op : Op) :
    invocations t [(Mark.invoke u op : Mark τ Op Res)] = if u = t then [op] else [] := by
  by_cases h : u = t <;> simp [invocations, h]

@[simp] theorem responses_invoke (op : Op) :
    responses t [(Mark.invoke u op : Mark τ Op Res)] = [] := rfl

@[simp] theorem invocations_respond (r : Res) :
    invocations t [(Mark.respond u r : Mark τ Op Res)] = [] := rfl

@[simp] theorem responses_respond (r : Res) :
    responses t [(Mark.respond u r : Mark τ Op Res)] = if u = t then [r] else [] := by
  by_cases h : u = t <;> simp [responses, h]

@[simp] theorem ofThread_singleton (e : Entry τ Op Res) :
    ofThread t [e] = if e.thread = t then [e] else [] := by
  by_cases h : e.thread = t <;> simp [ofThread, h]

end Projections

/-- A longer order is cut by the same moments. -/
theorem Cut.extend {A : List (Mark τ Op Res)} {L : List (Entry τ Op Res)} (h : Cut A L)
    (L' : List (Entry τ Op Res)) : Cut A (L ++ L') := by
  obtain ⟨L₁, hPrefix, hCounts⟩ := h
  exact ⟨L₁, hPrefix.trans (List.prefix_append L L'), hCounts⟩

/-! ## The invariant -/

/-- What links a state to the history so far and to the order of what has taken effect. -/
structure Tracked (spec : Spec V Op Res) (v₀ : V) (H : List (Mark τ Op Res)) (v : V)
    (status : τ → Status Op Res) (L : List (Entry τ Op Res)) : Prop where
  legal : Legal spec v₀ L v
  ops : ∀ t, invocations t H = (ofThread t L).map Entry.op ++ (status t).waiting
  results : ∀ t, (ofThread t L).map Entry.result = responses t H ++ (status t).owed
  realTime : ∀ A, A <+: H → Cut A L

namespace Tracked

variable {spec : Spec V Op Res} {v₀ v v' : V} {H : List (Mark τ Op Res)}
  {status : τ → Status Op Res} {L : List (Entry τ Op Res)} {t : τ} {op : Op} {r : Res}

/-- The whole order is a cut at the present moment. -/
theorem cut (h : Tracked spec v₀ H v status L) : Cut H L := by
  refine ⟨L, List.prefix_rfl, fun t => ⟨?_, ?_⟩⟩
  · have hResults := congrArg List.length (h.results t)
    rw [List.length_map, List.length_append] at hResults
    omega
  · have hOps := congrArg List.length (h.ops t)
    rw [List.length_append, List.length_map] at hOps
    omega

theorem orders (h : Tracked spec v₀ H v status L) : Orders H L where
  invoked t := ⟨(status t).waiting, (h.ops t).symm⟩
  responded t := ⟨(status t).owed, (h.results t).symm⟩
  realTime := h.realTime

theorem init (hIdle : ∀ t, status t = .idle) : Tracked spec v₀ [] v₀ status [] where
  legal := .nil
  ops t := by simp [hIdle t, invocations, ofThread, Status.waiting]
  results t := by simp [hIdle t, responses, ofThread, Status.owed]
  realTime A hA := by
    rw [List.prefix_nil.mp hA]
    exact ⟨[], List.prefix_rfl, fun t => ⟨Nat.le_refl _, Nat.le_refl _⟩⟩

/-- A thread that is in no operation calls one. -/
theorem invoke (h : Tracked spec v₀ H v status L) (hStatus : status t = .idle) :
    Tracked spec v₀ (H ++ [.invoke t op]) v (Function.update status t (.pending op)) L := by
  have hOps : ∀ u, invocations u (H ++ [.invoke t op]) =
      (ofThread u L).map Entry.op ++ (Function.update status t (.pending op) u).waiting := by
    intro u
    rw [invocations_append, h.ops u, invocations_invoke]
    by_cases hu : t = u
    · subst hu
      simp [hStatus, Status.waiting]
    · rw [Function.update_of_ne (Ne.symm hu), if_neg hu, List.append_nil]
  have hResults : ∀ u, (ofThread u L).map Entry.result =
      responses u (H ++ [.invoke t op]) ++
        (Function.update status t (.pending op) u).owed := by
    intro u
    rw [responses_append, responses_invoke, List.append_nil, h.results u]
    by_cases hu : u = t
    · subst hu
      simp [hStatus, Status.owed]
    · rw [Function.update_of_ne hu]
  refine ⟨h.legal, hOps, hResults, ?_⟩
  intro A hA
  rcases List.prefix_concat_iff.mp hA with rfl | hBefore
  · obtain ⟨L₁, hPrefix, hCounts⟩ := h.cut
    refine ⟨L₁, hPrefix, fun u => ?_⟩
    have hCount := hCounts u
    rw [responses_append, invocations_append, responses_invoke, List.append_nil,
      List.length_append]
    omega
  · exact h.realTime A hBefore

/-- The operation takes effect. -/
theorem effect (h : Tracked spec v₀ H v status L) (hStatus : status t = .pending op)
    (hSpec : spec v op = some (v', r)) :
    Tracked spec v₀ H v' (Function.update status t (.effected r)) (L ++ [⟨t, op, r⟩]) := by
  refine ⟨.snoc h.legal hSpec, ?_, ?_, fun A hA => (h.realTime A hA).extend _⟩
  · intro u
    rw [h.ops u, ofThread_append, ofThread_singleton]
    by_cases hu : t = u
    · subst hu
      simp [hStatus, Status.waiting]
    · rw [Function.update_of_ne (Ne.symm hu), if_neg hu, List.append_nil]
  · intro u
    rw [ofThread_append, ofThread_singleton, List.map_append, h.results u]
    by_cases hu : t = u
    · subst hu
      simp [hStatus, Status.owed]
    · simp [Function.update_of_ne (Ne.symm hu), hu]

/-- The operation returns. -/
theorem respond (h : Tracked spec v₀ H v status L) (hStatus : status t = .effected r) :
    Tracked spec v₀ (H ++ [.respond t r]) v (Function.update status t .idle) L := by
  have hResults : ∀ u, (ofThread u L).map Entry.result =
      responses u (H ++ [.respond t r]) ++ (Function.update status t .idle u).owed := by
    intro u
    rw [responses_append, responses_respond, h.results u]
    by_cases hu : t = u
    · subst hu
      simp [hStatus, Status.owed]
    · rw [Function.update_of_ne (Ne.symm hu), if_neg hu, List.append_nil]
  refine ⟨h.legal, ?_, hResults, ?_⟩
  · intro u
    rw [invocations_append, invocations_respond, List.append_nil, h.ops u]
    by_cases hu : u = t
    · subst hu
      simp [hStatus, Status.waiting]
    · rw [Function.update_of_ne hu]
  · intro A hA
    rcases List.prefix_concat_iff.mp hA with rfl | hBefore
    · refine ⟨L, List.prefix_rfl, fun u => ⟨?_, ?_⟩⟩
      · -- the result returned is one that was owed
        have hCount := congrArg List.length (hResults u)
        rw [List.length_map, List.length_append] at hCount
        omega
      · have hCount := congrArg List.length (h.ops u)
        rw [List.length_append, List.length_map] at hCount
        rw [invocations_append, List.length_append]
        omega
    · exact h.realTime A hBefore

end Tracked

/-! ## The rule -/

/-- What one step may do to the history, the content and the threads. -/
inductive Move (spec : Spec V Op Res) (v : V) (status : τ → Status Op Res) :
    List (Mark τ Op Res) → V → (τ → Status Op Res) → Prop
  | stay : Move spec v status [] v status
  | invoke {t : τ} {op : Op} (hStatus : status t = .idle) :
    Move spec v status [.invoke t op] v (Function.update status t (.pending op))
  | effect {t : τ} {op : Op} {v' : V} {r : Res} (hStatus : status t = .pending op)
    (hSpec : spec v op = some (v', r)) :
    Move spec v status [] v' (Function.update status t (.effected r))
  | respond {t : τ} {r : Res} (hStatus : status t = .effected r) :
    Move spec v status [.respond t r] v (Function.update status t .idle)
  /-- The operation takes effect and returns. -/
  | finish {t : τ} {op : Op} {v' : V} {r : Res} (hStatus : status t = .pending op)
    (hSpec : spec v op = some (v', r)) :
    Move spec v status [.respond t r] v' (Function.update status t .idle)

theorem Tracked.move {spec : Spec V Op Res} {v₀ v v' : V} {H marks : List (Mark τ Op Res)}
    {status status' : τ → Status Op Res} {L : List (Entry τ Op Res)}
    (h : Tracked spec v₀ H v status L) (hMove : Move spec v status marks v' status') :
    ∃ L', Tracked spec v₀ (H ++ marks) v' status' L' := by
  cases hMove with
  | stay => exact ⟨L, by rwa [List.append_nil]⟩
  | invoke hStatus => exact ⟨L, h.invoke hStatus⟩
  | effect hStatus hSpec => exact ⟨_, by rw [List.append_nil]; exact h.effect hStatus hSpec⟩
  | respond hStatus => exact ⟨L, h.respond hStatus⟩
  | @finish t op v' r hStatus hSpec =>
    have hEffected := h.effect hStatus hSpec
    have hResponded := hEffected.respond (t := t) (r := r) (Function.update_self ..)
    rw [Function.update_idem] at hResponded
    exact ⟨_, hResponded⟩

/-- **The rule of linearization points**: if every step of a system keeps an invariant and is
a move, then in every run the history is explained by an order that the sequential object
can run, and that leads it to the present content. -/
theorem orders_of_reach {S E : Type} {M : System S E} {ok : S × List (Mark τ Op Res) → E → Prop}
    {marks : S → E → List (Mark τ Op Res)} {spec : Spec V Op Res} {v₀ : V} {value : S → V}
    {status : S → τ → Status Op Res} {I : S → Prop}
    (hInit : ∀ s, M.init s → I s ∧ value s = v₀ ∧ ∀ t, status s t = .idle)
    (hStep : ∀ s e s', I s → M.step s e = some s' →
      I s' ∧ Move spec (value s) (status s) (marks s e) (value s') (status s'))
    {s : S} {H : List (Mark τ Op Res)} (h : Reach (M.recorded marks) ok (s, H)) :
    ∃ L, Legal spec v₀ L (value s) ∧ Orders H L := by
  have hTracked : I (s, H).1 ∧
      ∃ L, Tracked spec v₀ (s, H).2 (value (s, H).1) (status (s, H).1) L := by
    refine h.invariant
      (I := fun p => I p.1 ∧ ∃ L, Tracked spec v₀ p.2 (value p.1) (status p.1) L) ?_ ?_
    · rintro ⟨s, H⟩ ⟨hStart, hEmpty⟩
      obtain ⟨hI, hValue, hIdle⟩ := hInit s hStart
      simp only at hEmpty ⊢
      rw [hEmpty, hValue]
      exact ⟨hI, [], .init hIdle⟩
    · rintro ⟨s, H⟩ e p' ⟨hI, L, hL⟩ - hNext
      obtain ⟨s', hs', rfl⟩ := Option.map_eq_some_iff.mp hNext
      obtain ⟨hI', hMove⟩ := hStep s e s' hI hs'
      exact ⟨hI', hL.move hMove⟩
  obtain ⟨-, L, hL⟩ := hTracked
  exact ⟨L, hL.legal, hL.orders⟩

end Linearizability
