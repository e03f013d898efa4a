import Mathlib

/-!
# Self-delimiting encodings in a stream

A stream codec writes a value as a nonempty string of symbols and recognises the first
complete value of a stream. `decodeAll` cuts a stream into its complete values and an
incomplete rest. The facts used by a reader of a stream are `decodeAll_encodeAll` (the
values written are the values read) and `decodeAll_spec` (what is read was on the stream).
-/

structure StreamCodec (α β : Type) where
  valid : α → Prop
  encode : α → List β
  decode : List β → Option (α × List β)
  decode_encode : ∀ a rest, valid a → decode (encode a ++ rest) = some (a, rest)
  of_decode : ∀ bs a rest, decode bs = some (a, rest) → valid a ∧ bs = encode a ++ rest
  encode_ne_nil : ∀ a, encode a ≠ []

namespace StreamCodec

variable {α β : Type} (c : StreamCodec α β)

/-- The encodings of a list of values, one after the other. -/
def encodeAll (as : List α) : List β := as.flatMap c.encode

@[simp] theorem encodeAll_nil : c.encodeAll [] = [] := rfl

@[simp] theorem encodeAll_cons (a : α) (as : List α) :
    c.encodeAll (a :: as) = c.encode a ++ c.encodeAll as := rfl

@[simp] theorem encodeAll_append (as bs : List α) :
    c.encodeAll (as ++ bs) = c.encodeAll as ++ c.encodeAll bs := by
  simp [encodeAll]

theorem decode_length {bs : List β} {a : α} {rest : List β}
    (h : c.decode bs = some (a, rest)) : rest.length < bs.length := by
  have hEq := (c.of_decode bs a rest h).2
  have hPos := List.length_pos_of_ne_nil (c.encode_ne_nil a)
  rw [hEq, List.length_append]
  omega

theorem decode_nil : c.decode [] = none := by
  cases h : c.decode [] with
  | none => rfl
  | some p =>
    obtain ⟨a, rest⟩ := p
    have hLess := c.decode_length h
    simp at hLess

/-- The complete values at the front of a stream, and what follows them. -/
def decodeAll (bs : List β) : List α × List β :=
  match _h : c.decode bs with
  | none => ([], bs)
  | some (a, rest) => (a :: (decodeAll rest).1, (decodeAll rest).2)
termination_by bs.length
decreasing_by all_goals exact c.decode_length _h

theorem decodeAll_none {bs : List β} (h : c.decode bs = none) :
    c.decodeAll bs = ([], bs) := by
  rw [decodeAll]
  split
  · rfl
  · simp_all

theorem decodeAll_some {bs : List β} {a : α} {rest : List β}
    (h : c.decode bs = some (a, rest)) :
    c.decodeAll bs = (a :: (c.decodeAll rest).1, (c.decodeAll rest).2) := by
  rw [decodeAll]
  split
  · simp_all
  · rename_i a' rest' h'
    rw [h] at h'
    cases h'
    rfl

theorem decodeAll_append {as : List α} (hValid : ∀ a ∈ as, c.valid a) (rest : List β) :
    c.decodeAll (c.encodeAll as ++ rest) =
      (as ++ (c.decodeAll rest).1, (c.decodeAll rest).2) := by
  induction as with
  | nil => rfl
  | cons a as ih =>
    have hFirst : c.decode (c.encodeAll (a :: as) ++ rest) =
        some (a, c.encodeAll as ++ rest) := by
      rw [encodeAll_cons, List.append_assoc]
      exact c.decode_encode a _ (hValid a List.mem_cons_self)
    rw [c.decodeAll_some hFirst, ih fun b hb => hValid b (List.mem_cons_of_mem a hb)]
    rfl

/-- Valid values followed by an incomplete one are read back exactly. -/
theorem decodeAll_encodeAll {as : List α} (hValid : ∀ a ∈ as, c.valid a) {rest : List β}
    (hRest : c.decode rest = none) : c.decodeAll (c.encodeAll as ++ rest) = (as, rest) := by
  rw [c.decodeAll_append hValid, c.decodeAll_none hRest, List.append_nil]

/-- What is read was on the stream, is valid, and leaves no complete value behind. -/
theorem decodeAll_spec (bs : List β) :
    bs = c.encodeAll (c.decodeAll bs).1 ++ (c.decodeAll bs).2 ∧
      (∀ a ∈ (c.decodeAll bs).1, c.valid a) ∧ c.decode (c.decodeAll bs).2 = none := by
  induction hn : bs.length using Nat.strongRecOn generalizing bs with
  | ind n ih =>
    cases h : c.decode bs with
    | none =>
      rw [c.decodeAll_none h]
      exact ⟨rfl, by simp, h⟩
    | some p =>
      obtain ⟨a, rest⟩ := p
      obtain ⟨hA, hBs⟩ := c.of_decode bs a rest h
      obtain ⟨hEq, hValid, hNone⟩ := ih rest.length (hn ▸ c.decode_length h) rest rfl
      rw [c.decodeAll_some h]
      refine ⟨?_, ?_, hNone⟩
      · rw [encodeAll_cons, List.append_assoc, ← hEq]
        exact hBs
      · intro b hb
        rcases List.mem_cons.mp hb with rfl | hb
        · exact hA
        · exact hValid b hb

end StreamCodec
