import Mathlib

/-!
# Stacks whose elements are moved in blocks

A machine with a stack that pushes its elements one by one and pops them one by one. A
command pushes a block of elements or pops a number of them, and what is popped is given
back in the order in which it was pushed. `Balanced` sequences pop every block they push,
and nothing else; they give the blocks back and leave the stack as they found it.
-/

namespace Stack

variable {α : Type}

/-- The stack, top first. -/
def pushAll (stack : List α) : List α → List α
  | [] => stack
  | x :: xs => pushAll (x :: stack) xs

/-- The elements that were pushed last, the first of them in front, and the rest. -/
def popAll : Nat → List α → Option (List α × List α)
  | 0, stack => some ([], stack)
  | _ + 1, [] => none
  | k + 1, x :: stack => (popAll k stack).map fun (xs, rest) => (xs ++ [x], rest)

inductive Command (α : Type)
  | push (xs : List α)
  | pop (k : Nat)
  deriving Repr

/-- A sequence of commands, with what its pops have given back. -/
def exec (stack : List α) : List (Command α) → Option (List α × List (List α))
  | [] => some (stack, [])
  | .push xs :: rest => exec (pushAll stack xs) rest
  | .pop k :: rest =>
    match popAll k stack with
    | some (xs, below) => (exec below rest).map fun (last, out) => (last, xs :: out)
    | none => none

/-- Every block that is pushed is popped as a whole, the last one first, and nothing else is
popped. The list is what the pops give back, in order. -/
inductive Balanced : List (Command α) → List (List α) → Prop
  | nil : Balanced [] []
  | append {first rest : List (Command α)} {out out' : List (List α)}
      (hFirst : Balanced first out) (hRest : Balanced rest out') :
      Balanced (first ++ rest) (out ++ out')
  | block (xs : List α) {middle : List (Command α)} {out : List (List α)}
      (hMiddle : Balanced middle out) :
      Balanced (.push xs :: (middle ++ [.pop xs.length])) (out ++ [xs])

/-! ## One command -/

theorem pushAll_eq (stack xs : List α) : pushAll stack xs = xs.reverse ++ stack := by
  induction xs generalizing stack with
  | nil => rfl
  | cons x xs ih =>
    rw [pushAll, ih, List.reverse_cons, List.append_assoc]
    rfl

theorem popAll_eq (k : Nat) (stack : List α) : popAll k stack =
    if k ≤ stack.length then some ((stack.take k).reverse, stack.drop k) else none := by
  induction k generalizing stack with
  | zero => simp [popAll]
  | succ k ih =>
    cases stack with
    | nil => simp [popAll]
    | cons x stack =>
      rw [popAll, ih]
      by_cases hEnough : k ≤ stack.length
      · rw [if_pos hEnough, if_pos (by simpa using hEnough)]
        simp
      · rw [if_neg hEnough, if_neg (by simpa using hEnough)]
        rfl

/-- A block that has just been pushed is popped again. -/
theorem popAll_pushAll (stack xs : List α) :
    popAll xs.length (pushAll stack xs) = some (xs, stack) := by
  rw [popAll_eq, pushAll_eq, if_pos (by simp), List.take_left' (by simp),
    List.drop_left' (by simp), List.reverse_reverse]

/-! ## Sequences -/

theorem exec_append (stack : List α) (first rest : List (Command α)) : exec stack (first ++ rest) =
    (exec stack first).bind fun (middle, out) =>
      (exec middle rest).map fun (last, out') => (last, out ++ out') := by
  induction first generalizing stack with
  | nil =>
    simp only [List.nil_append, exec, Option.bind_some]
    simp
  | cons command first ih =>
    cases command with
    | push xs => exact ih _
    | pop k =>
      simp only [List.cons_append, exec]
      cases popAll k stack with
      | none => rfl
      | some popped =>
        obtain ⟨xs, below⟩ := popped
        simp only [ih]
        cases exec below first with
        | none => rfl
        | some middle => simp [Option.map_map, Function.comp_def]

/-- **A balanced sequence gives every block back and leaves the stack as it found it.** -/
theorem exec_balanced {commands : List (Command α)} {out : List (List α)}
    (h : Balanced commands out) (stack : List α) : exec stack commands = some (stack, out) := by
  induction h generalizing stack with
  | nil => rfl
  | append _ _ ihFirst ihRest =>
    simp only [exec_append, ihFirst, Option.bind_some, ihRest, Option.map_some]
  | block xs _ ih =>
    simp only [exec, exec_append, ih, Option.bind_some, popAll_pushAll, Option.map_some]

end Stack
