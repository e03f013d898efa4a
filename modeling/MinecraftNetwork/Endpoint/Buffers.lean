import MinecraftNetwork.Endpoint.Outgoing

/-!
# The memory behind the outstanding operations

`async_read` and `async_write` are given the address of a field: the system reads it, or
writes it, at any time until the operation completes. The model hands over the bytes at once.
That this is what the program does is a property of the program: while an operation is
outstanding, no handler changes the field it points to, or moves it, whatever else runs on the
connection (`stable_of_reach`). For `m_ValidationOut` and `m_ID` it is the handshake that
keeps the order, for the messages it is the deque, whose front stays where it is while others
are pushed behind it, and for the body that is read it is that only one read is outstanding.

A run of an endpoint is that of a connection that is alive: its owner may destroy it, and the
fields with it, and which connections have an owner while an operation is outstanding is a
matter of the server (`DedicatedServer.owned_of_pending`).
-/

namespace MinecraftNetwork

open Runs LittleEndian

/-- What stands in the memory that an `async_write` is given; there is none if it is that of
the front of an empty deque. -/
def WriteOp.memory (c : Connection) : WriteOp → Option (List UInt8)
  | .header => c.outgoingMessages.head?.map fun m => m.header.bytes
  | .body => c.outgoingMessages.head?.map fun m => m.body
  | .validation1 | .validation2 | .validation3 => some (encode64 c.validationOut)
  | .validation4 => some (encode64 c.id)

/-- What stands in the memory that an `async_read` is given. -/
def ReadOp.memory (c : Connection) : ReadOp → List UInt8
  | .header => c.tempIncomingMessage.header.bytes
  | .body => c.tempIncomingMessage.body
  | .validation1 | .validation2 | .validation3 => encode64 c.validationIn
  | .validation4 => encode64 c.id

/-- The operation is started with the memory of its field, all of it. -/
def Effect.Backed (c : Connection) : Effect → Prop
  | .asyncRead op n => (op.memory c).length = n
  | .asyncWrite op bytes => op.memory c = some bytes
  | .asyncConnect | .onValidate _ | .onInvalidate | .disconnect | .postClose | .emplaceBack _ _
  | .emptyDeque => True

namespace Connection

theorem disconnect_backed (c c' : Connection) : ∀ effect ∈ c.disconnect, effect.Backed c' := by
  unfold disconnect
  split
  · split <;> simp [Effect.Backed]
  · intro effect hMem
    cases hMem

theorem readHeader_backed (c : Connection) : ∀ effect ∈ c.readHeader, effect.Backed c := by
  simp [readHeader, Effect.Backed, ReadOp.memory]

theorem writeHeader_backed (c : Connection) : ∀ effect ∈ c.writeHeader, effect.Backed c := by
  unfold writeHeader
  cases hQueue : c.outgoingMessages with
  | nil => simp [Effect.Backed]
  | cons m rest => simp [Effect.Backed, WriteOp.memory, hQueue]

theorem readValidation_backed (owner : ConnectionOwner) (op : ReadOp) (c : Connection)
    (hOp : op ≠ .header ∧ op ≠ .body) : ∀ effect ∈ readValidation owner op c, effect.Backed c := by
  unfold readValidation
  split
  · cases op with
    | header => exact absurd rfl hOp.1
    | body => exact absurd rfl hOp.2
    | validation1 | validation2 | validation3 | validation4 =>
      simp [Effect.Backed, ReadOp.memory]
  · intro effect hMem
    cases hMem

theorem writeValidation_backed (owner : ConnectionOwner) (op : WriteOp)
    {field : Connection → UInt64} {c : Connection} (hField : op.memory c = some (encode64 (field c))) :
    ∀ effect ∈ writeValidation owner op field c, effect.Backed c := by
  unfold writeValidation
  split
  · simpa [Effect.Backed] using hField
  · intro effect hMem
    cases hMem

theorem addToIncomingMessageQueue_backed (c : Connection) : ∀ effect ∈
    c.addToIncomingMessageQueue.2, effect.Backed c.addToIncomingMessageQueue.1 := by
  intro effect hMem
  rcases List.mem_cons.mp hMem with rfl | hMem
  · trivial
  · exact readHeader_backed _ effect hMem

theorem messageWritten_backed (c : Connection) :
    ∀ effect ∈ c.messageWritten.2, effect.Backed c.messageWritten.1 := by
  unfold messageWritten
  split
  · simp only
    split
    · exact writeHeader_backed _
    · intro effect hMem
      cases hMem
  · simp [Effect.Backed]

theorem readDone_backed (c : Connection) (op : ReadOp) (bytes : List UInt8) :
    ∀ effect ∈ (c.readDone op bytes).2, effect.Backed (c.readDone op bytes).1 := by
  cases op with
  | header =>
    simp only [readDone, readHeaderDone]
    split
    · simp [readBody, Effect.Backed, ReadOp.memory]
    · exact addToIncomingMessageQueue_backed _
  | body => exact addToIncomingMessageQueue_backed _
  | validation1 => exact writeValidation_backed _ _ rfl
  | validation2 =>
    simp only [readDone, readValidation2Done]
    split
    · intro effect hMem
      rcases List.mem_cons.mp hMem with rfl | hMem
      · trivial
      · exact writeValidation_backed _ .validation3 rfl effect hMem
    · intro effect hMem
      rcases List.mem_cons.mp hMem with rfl | hMem
      · trivial
      · exact disconnect_backed _ _ effect hMem
  | validation3 =>
    simp only [readDone, readValidation3Done]
    split
    · exact readValidation_backed _ _ _ (by simp)
    · intro effect hMem
      rcases List.mem_cons.mp hMem with rfl | hMem
      · trivial
      · exact disconnect_backed _ _ effect hMem
  | validation4 =>
    intro effect hMem
    rcases List.mem_cons.mp hMem with rfl | hMem
    · trivial
    · exact readHeader_backed _ effect hMem

theorem writeDone_backed (c : Connection) (op : WriteOp) :
    ∀ effect ∈ (c.writeDone op).2, effect.Backed (c.writeDone op).1 := by
  cases op with
  | header =>
    simp only [writeDone, writeHeaderDone]
    split
    · rename_i m rest hQueue
      split
      · simp [writeBody, hQueue, Effect.Backed, WriteOp.memory]
      · exact messageWritten_backed c
    · simp [Effect.Backed]
  | body => exact messageWritten_backed c
  | validation1 => exact readValidation_backed _ _ _ (by simp)
  | validation2 => exact readValidation_backed _ _ _ (by simp)
  | validation3 => exact writeValidation_backed _ _ rfl
  | validation4 => exact readHeader_backed c

end Connection

namespace Endpoint

variable {e e' : Endpoint} {effects : List Effect} {c : Completion}

/-- **Every operation is started with the memory of its field**, as it is when the handler
that starts it returns. -/
theorem handle_backed (h : e.handle c = some (e', effects)) :
    ∀ effect ∈ effects, effect.Backed e'.connection := by
  cases c with
  | lambda =>
    simp only [handle] at h
    split at h <;> cases h
    · simp only [Connection.runSend]
      split
      · exact Connection.writeHeader_backed _
      · intro effect hMem
        cases hMem
    · intro effect hMem
      cases hMem
  | connected =>
    simp only [handle] at h
    split at h <;> cases h
    exact Connection.readValidation_backed _ _ _ (by simp)
  | connectFailed | readFailed | writeFailed =>
    simp only [handle] at h
    split at h <;> cases h
    exact Connection.disconnect_backed _ _
  | read op bytes =>
    simp only [handle] at h
    split at h <;> cases h
    exact Connection.readDone_backed _ _ _
  | written op =>
    simp only [handle] at h
    split at h <;> cases h
    exact Connection.writeDone_backed _ _

/-- A handler takes its own write from those outstanding, and no other. -/
theorem handle_writing (h : e.handle c = some (e', effects)) (op : WriteOp) :
    (c = .written op ∨ c = .writeFailed op) ∧ e'.writing op = (e.writing op).tail ∨
      (c ≠ .written op ∧ c ≠ .writeFailed op) ∧ e'.writing op = e.writing op := by
  cases c with
  | written op' | writeFailed op' =>
    simp only [handle] at h
    split at h
    · rename_i hWriting
      cases h
      by_cases hSame : op = op'
      · subst hSame
        left
        simp [hWriting]
      · right
        simp [hSame, Ne.symm hSame]
    · cases h
  | lambda =>
    right
    simp only [handle] at h
    split at h <;> cases h <;> simp
  | connected | connectFailed | read | readFailed =>
    right
    simp only [handle] at h
    split at h <;> cases h
    simp

/-- The handshake's fields belong to its core. -/
theorem memory_core {conn conn' : Connection} (h : conn'.core = conn.core) :
    (∀ op : ReadOp, op.memory conn' = op.memory conn) ∧
      ∀ op : WriteOp, op.sendsFrame = false → op.memory conn' = op.memory conn := by
  have hOut := congrArg Connection.validationOut h
  have hId := congrArg Connection.id h
  have hIn := congrArg Connection.validationIn h
  have hTemp := congrArg Connection.tempIncomingMessage h
  simp only [Connection.core] at hOut hId hIn hTemp
  refine ⟨fun op => ?_, fun op hOp => ?_⟩
  · cases op <;> simp only [ReadOp.memory, hId, hIn, hTemp]
  · cases op with
    | header | body => cases hOp
    | validation1 | validation2 | validation3 => simp only [WriteOp.memory, hOut]
    | validation4 => simp only [WriteOp.memory, hId]

/-- The operations of the write chain point to the front of the deque. -/
theorem memory_front {conn conn' : Connection}
    (h : conn'.outgoingMessages.head? = conn.outgoingMessages.head?) {op : WriteOp}
    (hOp : op.sendsFrame = true) : op.memory conn' = op.memory conn := by
  rcases op.sendsFrame_cases hOp with rfl | rfl <;> simp only [WriteOp.memory, h]

/-- **A handler leaves the memory of the outstanding writes alone**, but for its own. -/
theorem memory_write {k : Option Pending} {done : List Message} (hWaits : e.Waits k)
    (hChain : WriteChain e done) (h : e.handle c = some (e', effects)) {op : WriteOp}
    (hWriting : e.writing op ≠ []) (hNot : c ≠ .written op ∧ c ≠ .writeFailed op) :
    op.memory e'.connection = op.memory e.connection := by
  have hSome : 0 < e.outstanding op := List.length_pos_iff.mpr hWriting
  cases hOp : op.sendsFrame with
  | false =>
    by_cases hMain : c.isMain = true
    · -- the chain waits for this write, and for nothing else
      obtain ⟨rfl, -⟩ := hWaits.handle hMain h
      have hCount := hWaits.writing op hOp
      split at hCount
      · rename_i hPending
        cases c with
        | written | writeFailed => simp_all [Completion.pending?]
        | connected | connectFailed | read | readFailed | lambda => cases hPending
      · omega
    · exact (memory_core (handle_frame (by simpa using hMain) h).2.1).2 op hOp
  | true =>
    by_cases hMain : c.isMain = true
    · exact memory_front (by rw [(handle_main hMain h).2.1]) hOp
    · cases hChain.turn (by simpa using hMain) h with
      | first hPosted hQueue =>
        exact absurd (hChain.writing_nil hQueue op hOp) hWriting
      | behind hPosted hQueue =>
        apply memory_front _ hOp
        obtain ⟨m, rest, hCons⟩ := List.exists_cons_of_ne_nil hQueue
        simp [hCons]
      | close | body | failed => exact memory_front rfl hOp
      | @sent op' m rest hOp' hQueue hSent =>
        -- only one write of the chain is outstanding
        have hNone := hChain.writing_update (by rcases hOp' with rfl | ⟨rfl, -⟩ <;> rfl) hSent op hOp
        by_cases hSame : op = op'
        · exact absurd (by rw [hSame]) hNot.1
        · rw [Function.update_of_ne hSame] at hNone
          exact absurd hNone hWriting

/-- **A handler leaves the memory of the outstanding read alone**, but for its own. -/
theorem memory_read {k : Option Pending} (hWaits : e.Waits k)
    (h : e.handle c = some (e', effects)) {op : ReadOp} {n : Nat} (hReading : (op, n) ∈ e.reading)
    (hNot : c.pending? ≠ some (.read op n)) :
    op.memory e'.connection = op.memory e.connection ∧ e'.reading = e.reading := by
  by_cases hMain : c.isMain = true
  · obtain ⟨rfl, -⟩ := hWaits.handle hMain h
    rw [hWaits.reading] at hReading
    cases hPending : c.pending? with
    | none =>
      rw [hPending] at hReading
      cases hReading
    | some k =>
      rw [hPending] at hReading hNot
      cases k with
      | read op' n' =>
        obtain ⟨rfl, rfl⟩ : op = op' ∧ n = n' := by simpa [Pending.read?] using hReading
        exact absurd rfl hNot
      | connect | write => cases hReading
  · obtain ⟨-, hCore, -, -, hSame, -⟩ := handle_frame (by simpa using hMain) h
    exact ⟨(memory_core hCore).1 op, hSame⟩

/-! ## In every run -/

/-- Every outstanding operation is backed by the memory of its field. -/
structure Backed (e : Endpoint) : Prop where
  /-- What is still to be sent of a write is the rest of what stands there. -/
  writing : ∀ op bytes, bytes ∈ e.writing op →
    ∃ memory, op.memory e.connection = some memory ∧ bytes <:+ memory
  /-- A read fills all of it. -/
  reading : ∀ op n, (op, n) ∈ e.reading → (op.memory e.connection).length = n

/-- Between the start of an operation and its completion a step leaves its memory alone. -/
structure Stable (e : Endpoint) (event : Event) (e' : Endpoint) : Prop where
  writing : ∀ op, e.writing op ≠ [] → event ≠ .complete (.written op) →
    event ≠ .complete (.writeFailed op) → e'.writing op ≠ [] ∧
      op.memory e'.connection = op.memory e.connection
  reading : ∀ op n, (op, n) ∈ e.reading → (∀ c, event = .complete c →
    c.pending? ≠ some (.read op n)) → (op, n) ∈ e'.reading ∧
      op.memory e'.connection = op.memory e.connection

/-- **A step leaves the memory of the outstanding operations alone.** -/
theorem stable_step {k : Option Pending} {done : List Message} {event : Event} (hWaits : e.Waits k)
    (hChain : WriteChain e done) (hStep : e.step event = some e') : Stable e event e' := by
  cases event with
  | send | disconnect =>
    cases hStep
    exact ⟨fun op hWriting _ _ => ⟨hWriting, rfl⟩, fun op n hReading _ => ⟨hReading, rfl⟩⟩
  | transfer op k =>
    obtain ⟨hConnection, -, -, -, -, hReading, -⟩ := transfer_frame hStep
    refine ⟨fun op' hWriting _ _ => ⟨?_, by rw [hConnection]⟩,
      fun op' n hMem _ => ⟨by rwa [hReading], by rw [hConnection]⟩⟩
    have hSame := transfer_outstanding hStep op'
    apply List.ne_nil_of_length_pos
    have hPos : 0 < (e.writing op').length := List.length_pos_iff.mpr hWriting
    exact hPos.trans_eq hSame.symm
  | complete c =>
    simp only [step, Option.map_eq_some_iff] at hStep
    obtain ⟨⟨e₁, effects⟩, hHandle, rfl⟩ := hStep
    refine ⟨fun op hWriting hNot hNot' => ?_, fun op n hReading hNot => ?_⟩
    · have hOther : c ≠ .written op ∧ c ≠ .writeFailed op :=
        ⟨fun hSame => hNot (by rw [hSame]), fun hSame => hNot' (by rw [hSame])⟩
      obtain ⟨hMine, -⟩ | ⟨-, hSame⟩ := handle_writing hHandle op
      · exact absurd hMine (not_or.mpr hOther)
      · rw [performAll_connection, performAll_writing, hSame]
        exact ⟨List.append_ne_nil_of_left_ne_nil hWriting _,
          memory_write hWaits hChain hHandle hWriting hOther⟩
    · obtain ⟨hMemory, hSame⟩ := memory_read hWaits hHandle hReading (hNot c rfl)
      rw [performAll_connection, performAll_reading, hSame]
      exact ⟨List.mem_append_left _ hReading, hMemory⟩

/-- At most one write of each continuation is outstanding. -/
theorem outstanding_le_one {k : Option Pending} {done : List Message} (hWaits : e.Waits k)
    (hChain : WriteChain e done) (op : WriteOp) : e.outstanding op ≤ 1 := by
  cases hOp : op.sendsFrame with
  | false =>
    rw [hWaits.writing op hOp]
    split <;> omega
  | true =>
    have hLe := hChain.outstanding_le
    rcases op.sendsFrame_cases hOp with rfl | rfl <;> omega

/-- **A step starts operations with the memory of their fields, and keeps it to the others.** -/
theorem Backed.step {k : Option Pending} {done : List Message} {event : Event} (h : Backed e)
    (hWaits : e.Waits k) (hChain : WriteChain e done) (hStep : e.step event = some e') :
    Backed e' := by
  cases event with
  | send | disconnect =>
    cases hStep
    exact ⟨h.writing, h.reading⟩
  | transfer op k =>
    obtain ⟨hConnection, -, -, -, -, hReading, -⟩ := transfer_frame hStep
    obtain ⟨bytes, rest, hWriting, hUpdate⟩ := transfer_writing hStep
    refine ⟨fun op' bytes' hMem => ?_, by rw [hConnection, hReading]; exact h.reading⟩
    rw [hConnection]
    rw [hUpdate] at hMem
    by_cases hSame : op' = op
    · subst hSame
      rw [Function.update_self] at hMem
      rcases List.mem_cons.mp hMem with rfl | hMem
      · obtain ⟨memory, hMemory, hSuffix⟩ := h.writing op' bytes (by simp [hWriting])
        exact ⟨memory, hMemory, (List.drop_suffix _ _).trans hSuffix⟩
      · exact h.writing op' bytes' (by simp [hWriting, hMem])
    · rw [Function.update_of_ne hSame] at hMem
      exact h.writing op' bytes' hMem
  | complete c =>
    simp only [Endpoint.step, Option.map_eq_some_iff] at hStep
    obtain ⟨⟨e₁, effects⟩, hHandle, rfl⟩ := hStep
    have hNew := handle_backed hHandle
    refine ⟨fun op bytes hMem => ?_, fun op n hMem => ?_⟩
    · rw [performAll_connection]
      rw [performAll_writing] at hMem
      rcases List.mem_append.mp hMem with hOld | hMem
      · obtain ⟨-, hTail⟩ | ⟨hOther, hSame⟩ := handle_writing hHandle op
        · -- the write that has completed was the only one of its kind
          have hOne : (e.writing op).length ≤ 1 := outstanding_le_one hWaits hChain op
          have hNone : (e.writing op).tail = [] := by
            apply List.eq_nil_of_length_eq_zero
            rw [List.length_tail]
            omega
          rw [hTail, hNone] at hOld
          cases hOld
        · rw [hSame] at hOld
          rw [memory_write hWaits hChain hHandle (List.ne_nil_of_mem hOld) hOther]
          exact h.writing op bytes hOld
      · obtain ⟨effect, hEffect, hWrite⟩ := List.mem_filterMap.mp hMem
        cases effect with
        | asyncWrite op' bytes' =>
          simp only [Effect.write?, Option.ite_none_right_eq_some, Option.some.injEq] at hWrite
          obtain ⟨rfl, rfl⟩ := hWrite
          exact ⟨_, hNew _ hEffect, List.suffix_rfl⟩
        | asyncConnect | asyncRead | onValidate | onInvalidate | disconnect | postClose
        | emplaceBack | emptyDeque => cases hWrite
    · rw [performAll_connection]
      rw [performAll_reading] at hMem
      rcases List.mem_append.mp hMem with hOld | hMem
      · have hReading : (op, n) ∈ e.reading := by
          by_cases hMain : c.isMain = true
          · -- the chain waited for one operation, which has completed
            have hNone := (hWaits.handle hMain hHandle).2.reading
            rw [show e₁.reading = [] from hNone] at hOld
            cases hOld
          · rwa [(handle_frame (by simpa using hMain) hHandle).2.2.2.2.1] at hOld
        by_cases hMine : c.pending? = some (.read op n)
        · have hMain : c.isMain = true := by
            cases c <;> first | rfl | cases hMine
          have hNone := (hWaits.handle hMain hHandle).2.reading
          rw [show e₁.reading = [] from hNone] at hOld
          cases hOld
        · rw [(memory_read hWaits hHandle hReading hMine).1]
          exact h.reading op n hReading
      · obtain ⟨effect, hEffect, hRead⟩ := List.mem_filterMap.mp hMem
        cases effect with
        | asyncRead op' n' =>
          cases hRead
          exact hNew _ hEffect
        | asyncConnect | asyncWrite | onValidate | onInvalidate | disconnect | postClose
        | emplaceBack | emptyDeque => cases hRead

theorem backed_start (lambdas : List Lambda) (s : Start) : Backed (start lambdas s) := by
  cases s with
  | created owner isOpen =>
    constructor
    · rintro op bytes hMem
      cases hMem
    · rintro op n hMem
      cases hMem
  | client opened =>
    constructor
    · rintro op bytes hMem
      cases hMem
    · rintro op n hMem
      cases hMem
  | server now id =>
    constructor
    · intro op bytes hMem
      obtain ⟨rfl, rfl⟩ : op = .validation1 ∧ encode64 now = bytes := by
        simpa [Endpoint.start, run, postAll, create, Connection.connectToClient,
          Connection.isConnected, Connection.writeValidation1, Connection.writeValidation,
          Effect.write?] using hMem
      exact ⟨_, rfl, List.suffix_rfl⟩
    · rintro op n hMem
      cases hMem

/-- **The memory of the outstanding operations**: in every run of an endpoint that its owner
does not destroy, whatever is sent on it, its network and its peer do, every outstanding write
is still to send the rest of what stands in its field, the outstanding read fills its field,
and until it completes no step changes that field or starts the operation a second time. -/
theorem stable_of_reach {s : Start} {ok : Endpoint → Event → Prop} (h : Reach (system s) ok e) :
    Backed e ∧ (∀ op, e.outstanding op ≤ 1) ∧ e.reading.length ≤ 1 ∧
      ∀ event e', e.step event = some e' → Stable e event e' := by
  obtain ⟨k, hWaits, -⟩ := exists_stage h
  obtain ⟨done, hChain⟩ := exists_writeChain h
  have hBacked : Backed e := by
    have hAll : Backed e ∧ InStage s e ∧ ∃ done, WriteChain e done := by
      refine h.invariant (I := fun e => Backed e ∧ InStage s e ∧ ∃ done, WriteChain e done) ?_ ?_
      · rintro _ ⟨lambdas, rfl⟩
        exact ⟨backed_start lambdas s, inStage_start lambdas s, [], WriteChain.start lambdas s⟩
      · rintro e event e' ⟨hBacked, hStage, done, hChain⟩ - hStep
        refine ⟨?_, hStage.step hStep, hChain.step hStep⟩
        obtain ⟨k, hWaits, -⟩ := hStage
        exact hBacked.step hWaits hChain hStep
    exact hAll.1
  refine ⟨hBacked, outstanding_le_one hWaits hChain, ?_,
    fun event e' hStep => stable_step hWaits hChain hStep⟩
  rw [hWaits.reading]
  cases k.bind Pending.read? <;> simp

/-- A header is being written while the next one is read. -/
theorem stable_lateSend : ∃ e, Reach (system (.server 0 1)) Free e ∧ e.writing .header ≠ [] ∧
    e.reading = [(.header, 8)] ∧ Backed e ∧
      ∀ event e', e.step event = some e' → Stable e event e' := by
  obtain ⟨e, hReach, hEnd⟩ := Reach.exists_of_free (M := system (.server 0 1)) ⟨[], rfl⟩ lateSend
    (fun e => decide (e.writing .header ≠ [] ∧ e.reading = [(.header, 8)])) (by decide)
  obtain ⟨hWriting, hReading⟩ := of_decide_eq_true hEnd
  obtain ⟨hBacked, -, -, hStable⟩ := stable_of_reach hReach
  exact ⟨e, hReach, hWriting, hReading, hBacked, hStable⟩

end Endpoint

end MinecraftNetwork
