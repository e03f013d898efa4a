import MinecraftNetwork.Message.HeaderSize
import MinecraftNetwork.Foundations.Stack

/-!
# A message is a stack of bytes

The body of a message is a stack whose top is its last byte: `operator<<` pushes the bytes
of a value one after the other, and `operator>>` pops as many bytes as the value read has.
Values of different sizes share the bytes. A sequence that pops what it pushes returns the
values and restores the body, and then the header too, since `header.size` follows the
length of the body modulo `2 ^ 32` (`byte_stack`).
-/

namespace MinecraftNetwork

namespace Message

/-- A sequence of stream operators, with the bytes of the values read. -/
def exec (m : Message) : List Operation → Except Failure (Message × List (List UInt8))
  | [] => .ok (m, [])
  | .push d :: rest => (m.push d).bind fun m => m.exec rest
  | .pop k :: rest => (m.pop k).bind fun (m, bytes) =>
    (m.exec rest).map fun (last, out) => (last, bytes :: out)

/-- A stream operator as a command of a stack of bytes. -/
def Operation.command : Operation → Stack.Command UInt8
  | .push d => .push d.bytes
  | .pop k => .pop k.val

/-- The body as a stack. -/
def stack (m : Message) : List UInt8 := m.body.reverse

/-- The number of bytes an operator pushes. -/
def Operation.pushes : Operation → Nat
  | .push d => d.size
  | .pop _ => 0

/-- The number of bytes a sequence pushes. -/
def pushed (operations : List Operation) : Nat := (operations.map Operation.pushes).sum

/-- The identifier is the same, and the announced size has moved with the length of the
body, modulo `2 ^ 32`. -/
structure Moved (m m' : Message) : Prop where
  id : m'.header.id = m.header.id
  size : (m'.header.size.toNat + m.body.length) % 2 ^ 32 =
    (m.header.size.toNat + m'.body.length) % 2 ^ 32

/-! ## One operator -/

theorem Moved.trans {m₁ m₂ m₃ : Message} (h : Moved m₁ m₂) (h' : Moved m₂ m₃) : Moved m₁ m₃ := by
  refine ⟨h'.id.trans h.id, ?_⟩
  have hFirst := h.size
  have hLast := h'.size
  omega

/-- A body that has come back brings its header with it. -/
theorem Moved.eq {m m' : Message} (h : Moved m m') (hBody : m'.body = m.body) : m' = m := by
  obtain ⟨⟨id, size⟩, body⟩ := m
  obtain ⟨⟨id', size'⟩, body'⟩ := m'
  obtain ⟨rfl, hSize⟩ := h
  subst hBody
  have hBound := size.toNat_lt
  have hBound' := size'.toNat_lt
  obtain rfl : size' = size := by
    apply UInt32.toNat_inj.mp
    simp only at hSize
    omega
  rfl

theorem push_stack {m m' : Message} {d : Data} (h : m.push d = .ok m') :
    m'.stack = Stack.pushAll m.stack d.bytes ∧ Moved m m' := by
  obtain ⟨hBody, hHeader⟩ := push_ok h
  constructor
  · rw [Stack.pushAll_eq, stack, hBody, List.reverse_append]
    rfl
  · refine ⟨by rw [hHeader], ?_⟩
    rw [hHeader, hBody, List.length_append]
    simp only [UInt32.toNat_ofNat', Data.size]
    omega

theorem pop_stack {m m' : Message} {k : ObjectSize} {bytes : List UInt8}
    (h : m.pop k = .ok (m', bytes)) :
    Stack.popAll k.val m.stack = some (bytes, m'.stack) ∧ Moved m m' := by
  obtain ⟨hBody, hLength, hHeader⟩ := pop_ok h
  constructor
  · have hStack : m.stack = Stack.pushAll m'.stack bytes := by
      rw [Stack.pushAll_eq, stack, hBody, List.reverse_append]
      rfl
    rw [hStack, ← hLength, Stack.popAll_pushAll]
  · refine ⟨by rw [hHeader], ?_⟩
    rw [hHeader, hBody, List.length_append, hLength]
    simp only [UInt32.toNat_sub, UInt32.toNat_ofNat']
    have hBound := m.header.size.toNat_lt
    omega

/-- A pop that finds enough bytes does not fail. -/
theorem pop_found {m : Message} {k : ObjectSize} {bytes below : List UInt8}
    (h : Stack.popAll k.val m.stack = some (bytes, below)) :
    ∃ m', m.pop k = .ok (m', bytes) ∧ m'.stack = below := by
  have hEnough : k.val ≤ m.body.length := by
    by_contra hNot
    rw [Stack.popAll_eq, if_neg (by simpa [stack] using hNot)] at h
    cases h
  have hPop := pop_eq m k
  rw [if_pos hEnough] at hPop
  obtain ⟨hPopped, -⟩ := pop_stack hPop
  rw [h, Option.some.injEq, Prod.mk.injEq] at hPopped
  obtain ⟨hBytes, hBelow⟩ := hPopped
  rw [← hBytes] at hPop
  exact ⟨_, hPop, hBelow.symm⟩

/-! ## Sequences -/

/-- A sequence whose pops find enough bytes runs as the stack does, unless a push asks for
more memory than a vector can have. -/
theorem exec_stack {m : Message} {operations : List Operation} {below : List UInt8}
    {out : List (List UInt8)}
    (h : Stack.exec m.stack (operations.map Operation.command) = some (below, out)) :
    m.exec operations = .error .lengthError ∧ maxSize < m.body.length + pushed operations ∨
      ∃ last, m.exec operations = .ok (last, out) ∧ last.stack = below ∧ Moved m last := by
  induction operations generalizing m out with
  | nil =>
    cases h
    exact .inr ⟨m, rfl, rfl, rfl, rfl⟩
  | cons operation operations ih =>
    cases operation with
    | push d =>
      have hTotal : pushed (.push d :: operations) = d.size + pushed operations := by
        simp [pushed, Operation.pushes]
      by_cases hRoom : m.body.length + d.size ≤ maxSize
      · have hPush := push_eq m d
        rw [if_pos hRoom] at hPush
        obtain ⟨hStack, hMoved⟩ := push_stack hPush
        simp only [List.map_cons, Operation.command, Stack.exec, ← hStack] at h
        rcases ih h with ⟨hFails, hLong⟩ | ⟨last, hLast, hBelow, hRest⟩
        · left
          refine ⟨by simp only [exec, hPush, Except.bind, hFails], ?_⟩
          simp only [List.length_append] at hLong
          rw [hTotal, Data.size]
          omega
        · right
          exact ⟨last, by simp only [exec, hPush, Except.bind, hLast], hBelow, hMoved.trans hRest⟩
      · left
        have hPush := push_eq m d
        rw [if_neg hRoom] at hPush
        refine ⟨by simp only [exec, hPush, Except.bind], ?_⟩
        omega
    | pop k =>
      have hTotal : pushed (.pop k :: operations) = pushed operations := by
        simp [pushed, Operation.pushes]
      simp only [List.map_cons, Operation.command, Stack.exec] at h
      split at h
      · rename_i bytes rest hPopped
        simp only [Option.map_eq_some_iff] at h
        obtain ⟨⟨last, values⟩, hExec, hResult⟩ := h
        cases hResult
        obtain ⟨m', hPop, rfl⟩ := pop_found hPopped
        obtain ⟨-, hMoved⟩ := pop_stack hPop
        rcases ih hExec with ⟨hFails, hLong⟩ | ⟨last, hLast, hBelow, hRest⟩
        · left
          refine ⟨by simp only [exec, hPop, Except.bind, hFails, Except.map], ?_⟩
          have hBody := (pop_ok hPop).1
          rw [hTotal, hBody, List.length_append]
          omega
        · right
          refine ⟨last, ?_, hBelow, hMoved.trans hRest⟩
          simp only [exec, hPop, Except.bind, hLast, Except.map]
      · cases h

/-- **A message is a stack of bytes.** A sequence whose pops find enough bytes returns what
a stack of single bytes returns and leaves the body that stack leaves, or asks for a vector
that is too long; and a balanced sequence returns the values it pushed and restores the
message, its header included. -/
theorem byte_stack {m : Message} {operations : List Operation} {below : List UInt8}
    {out : List (List UInt8)}
    (h : Stack.exec m.stack (operations.map Operation.command) = some (below, out)) :
    m.exec operations = .error .lengthError ∧ maxSize < m.body.length + pushed operations ∨
      ∃ last, m.exec operations = .ok (last, out) ∧ last.stack = below ∧ Moved m last ∧
        ∀ out', Stack.Balanced (operations.map Operation.command) out' → last = m ∧ out = out' := by
  rcases exec_stack h with hFails | ⟨last, hLast, hBelow, hMoved⟩
  · exact .inl hFails
  · refine .inr ⟨last, hLast, hBelow, hMoved, fun out' hBalanced => ?_⟩
    have hBack := Stack.exec_balanced hBalanced m.stack
    rw [h, Option.some.injEq, Prod.mk.injEq] at hBack
    obtain ⟨hSame, hOut⟩ := hBack
    refine ⟨hMoved.eq ?_, hOut⟩
    rw [hSame] at hBelow
    exact List.reverse_inj.mp hBelow

/-- Values of two bytes and of one are read back as values of two and of one: the first has a
byte of both. The message is one whose announced size wraps. -/
def mixed : List Operation :=
  [.push ⟨[1, 2], by decide, by decide⟩, .push ⟨[3], by decide, by decide⟩,
    .pop ⟨2, by decide, by decide⟩, .pop ⟨1, by decide, by decide⟩]

theorem byte_stack_mixed :
    ∃ last, exec { header := { id := 7, size := 0xFFFFFFFF }, body := [9] } mixed =
      .ok (last, [[2, 3], [1]]) ∧ last.stack = [9] := by
  have hExec : Stack.exec (stack { header := { id := 7, size := 0xFFFFFFFF }, body := [9] })
      (mixed.map Operation.command) = some ([9], [[2, 3], [1]]) := rfl
  rcases byte_stack hExec with ⟨hFails, -⟩ | ⟨last, hLast, hBelow, -⟩
  · cases hFails
  · exact ⟨last, hLast, hBelow⟩

end Message

end MinecraftNetwork
