import MinecraftNetwork.Endpoint.Opening

/-!
# Every handler that does not fail brings an endpoint on

What an endpoint still has to do is measured against the number of bytes it will write and
the number it will read: the bytes that have not left, the bytes no write was started for, the
outstanding writes, the posted lambdas, and the bytes to be read (`Endpoint.load`). A
completion that does not fail, and a transfer that moves some bytes, lower this load
(`load_complete`, `load_transfer`): every operation that is started has something to do
(`Effect.Goes`), so that nothing completes without having moved bytes.
-/

namespace MinecraftNetwork

open LittleEndian

/-- An operation with something to do, or no operation; nothing is disconnected or posted. -/
def Effect.Goes : Effect → Prop
  | .asyncRead _ n => 0 < n
  | .asyncWrite _ bytes => bytes ≠ []
  | .asyncConnect | .disconnect | .postClose => False
  | .onValidate _ | .onInvalidate | .emplaceBack _ _ | .emptyDeque => True

namespace Connection

theorem header_ne_nil (h : MessageHeader) : h.bytes ≠ [] := by
  apply List.ne_nil_of_length_pos
  rw [MessageHeader.length_bytes, headerSize]
  omega

theorem encode64_ne_nil (x : UInt64) : encode64 x ≠ [] := by
  apply List.ne_nil_of_length_pos
  rw [length_encode64]
  omega

theorem writeHeader_goes (c : Connection) : ∀ effect ∈ c.writeHeader, effect.Goes := by
  unfold writeHeader
  cases c.outgoingMessages with
  | nil => simp [Effect.Goes]
  | cons m rest => simpa [Effect.Goes] using header_ne_nil m.header

theorem messageWritten_goes (c : Connection) : ∀ effect ∈ c.messageWritten.2, effect.Goes := by
  unfold messageWritten
  cases c.outgoingMessages with
  | nil => simp [Effect.Goes]
  | cons m rest =>
    simp only
    split
    · exact writeHeader_goes _
    · intro effect hMem
      cases hMem

theorem readValidation_goes (owner : ConnectionOwner) (op : ReadOp) (c : Connection) :
    ∀ effect ∈ readValidation owner op c, effect.Goes := by
  unfold readValidation
  split <;> simp [Effect.Goes]

theorem writeValidation_goes (owner : ConnectionOwner) (op : WriteOp) (field : Connection → UInt64)
    (c : Connection) : ∀ effect ∈ writeValidation owner op field c, effect.Goes := by
  unfold writeValidation
  split
  · simpa [Effect.Goes] using encode64_ne_nil (field c)
  · intro effect hMem
    cases hMem

theorem addToIncomingMessageQueue_goes (c : Connection) :
    ∀ effect ∈ c.addToIncomingMessageQueue.2, effect.Goes := by
  simp [addToIncomingMessageQueue, readHeader, Effect.Goes, headerSize]

theorem readHeaderDone_goes (c : Connection) (bytes : List UInt8) :
    ∀ effect ∈ (c.readHeaderDone bytes).2, effect.Goes := by
  simp only [readHeaderDone]
  split
  · rename_i hSize
    have hLength : 0 < (MessageHeader.ofBytes bytes).size.toNat := by
      have hLess := UInt32.lt_iff_toNat_lt.mp hSize
      simpa using hLess
    simp only [readBody, List.mem_singleton, forall_eq, Effect.Goes, resize, List.length_append,
      List.length_take, List.length_replicate]
    omega
  · exact addToIncomingMessageQueue_goes _

/-- The continuation of a read that accepts what it has read. -/
theorem readDone_goes (c : Connection) {op : ReadOp} {bytes : List UInt8}
    (hAccepts : c.rejects op bytes = false) : ∀ effect ∈ (c.readDone op bytes).2, effect.Goes := by
  cases op with
  | header => exact readHeaderDone_goes c bytes
  | body => exact addToIncomingMessageQueue_goes _
  | validation1 => exact writeValidation_goes _ _ _ _
  | validation2 =>
    have hSame : decode64 bytes = c.validationCheck := by simpa [rejects] using hAccepts
    simp only [readDone, readValidation2Done, hSame, if_true]
    intro effect hMem
    rcases List.mem_cons.mp hMem with rfl | hMem
    · trivial
    · exact writeValidation_goes _ _ _ _ effect hMem
  | validation3 =>
    have hSame : decode64 bytes = c.validationCheck := by simpa [rejects] using hAccepts
    simp only [readDone, readValidation3Done, hSame, if_true]
    exact readValidation_goes _ _ _
  | validation4 =>
    simp [readDone, readValidation4Done, readHeader, Effect.Goes, headerSize]

theorem writeDone_goes (c : Connection) (op : WriteOp) :
    ∀ effect ∈ (c.writeDone op).2, effect.Goes := by
  cases op with
  | header =>
    simp only [writeDone, writeHeaderDone]
    split
    · rename_i m rest hQueue
      split
      · rename_i hBody
        simpa [writeBody, hQueue, Effect.Goes, List.length_pos_iff] using hBody
      · exact messageWritten_goes c
    · simp [Effect.Goes]
  | body => exact messageWritten_goes c
  | validation1 => exact readValidation_goes _ _ _
  | validation2 => exact readValidation_goes _ _ _
  | validation3 => exact writeValidation_goes _ _ _ _
  | validation4 => simp [writeDone, readHeader, Effect.Goes, headerSize]

theorem runSend_goes (c : Connection) (m : Message) : ∀ effect ∈ (c.runSend m).2, effect.Goes := by
  simp only [runSend]
  split
  · exact writeHeader_goes _
  · intro effect hMem
    cases hMem

end Connection

namespace Endpoint

variable {e e' : Endpoint} {effects : List Effect} {volume expected : Nat}

/-- **A handler that does not fail starts only operations with something to do.** -/
theorem handle_goes {c : Completion} (hFails : c.fails = false)
    (hEnds : c.ends e.connection = false) (h : e.handle c = some (e', effects)) :
    ∀ effect ∈ effects, effect.Goes := by
  cases c with
  | connectFailed | readFailed | writeFailed => cases hFails
  | connected =>
    simp only [handle] at h
    split at h <;> cases h
    exact Connection.readValidation_goes _ _ _
  | read op bytes =>
    simp only [handle] at h
    split at h <;> cases h
    exact Connection.readDone_goes _ hEnds
  | written op =>
    simp only [handle] at h
    split at h <;> cases h
    exact Connection.writeDone_goes _ _
  | lambda =>
    simp only [handle] at h
    split at h <;> cases h
    · exact Connection.runSend_goes _ _
    · intro effect hMem
      cases hMem

/-- What an endpoint has still to do, if it is to write `volume` bytes in all, and to read
`expected` bytes. -/
def load (e : Endpoint) (volume expected : Nat) : Nat :=
  (volume - e.wire.length) + (2 * (volume - e.handed.length) + e.writes) + e.posted.length +
    (expected - e.consumed.length) + e.connecting.toNat

/-- Writes with something to write are no more than their bytes. -/
theorem writes_performAll_le (hGoes : ∀ effect ∈ effects, effect.Goes) :
    (e.performAll effects).writes ≤ e.writes + (effects.flatMap Effect.bytes).length := by
  induction effects generalizing e with
  | nil => exact Nat.le_refl _
  | cons effect effects ih =>
    have hRest := @ih (e.perform effect) fun x hx => hGoes x (List.mem_cons_of_mem _ hx)
    rw [performAll_cons, List.flatMap_cons, List.length_append]
    refine hRest.trans ?_
    cases effect with
    | asyncWrite op bytes =>
      have hBytes : bytes ≠ [] := hGoes _ List.mem_cons_self
      have hPos : 0 < (Effect.asyncWrite op bytes).bytes.length := List.length_pos_iff.mpr hBytes
      rw [(writes_perform e op bytes).1]
      omega
    | asyncConnect | asyncRead | onValidate | onInvalidate | disconnect | postClose | emplaceBack
    | emptyDeque =>
      refine Nat.add_le_add ?_ (Nat.le_add_left _ _)
      exact Nat.le_of_eq (writes_congr fun _ => rfl)

/-- The operations a handler starts were still to be done. -/
theorem load_performAll (hGoes : ∀ effect ∈ effects, effect.Goes)
    (hVolume : (e.performAll effects).handed.length ≤ volume) :
    (e.performAll effects).load volume expected ≤ e.load volume expected := by
  have hWrites := writes_performAll_le (e := e) hGoes
  have hHanded : (e.performAll effects).handed = e.handed ++ effects.flatMap Effect.bytes := by
    simp [handed]
  have hPosted : (e.performAll effects).posted = e.posted := by
    rw [performAll_posted, List.filterMap_eq_nil_iff.mpr, List.append_nil]
    intro effect hMem
    have hGo := hGoes effect hMem
    cases effect <;> first | rfl | cases hGo
  have hConnecting : (e.performAll effects).connecting = e.connecting := by
    have hNot : Effect.asyncConnect ∉ effects := fun hMem => hGoes _ hMem
    simp [hNot]
  rw [hHanded, List.length_append] at hVolume
  simp only [load, performAll_wire, performAll_consumed, hPosted, hConnecting, hHanded,
    List.length_append]
  omega

/-- The reads that are outstanding have something to read. -/
def Reads (e : Endpoint) : Prop := ∀ read ∈ e.reading, 0 < read.2

theorem outside_reading {event : Event} (hOutside : ∀ c, event ≠ .complete c)
    (h : e.step event = some e') : e'.reading = e.reading := by
  cases event with
  | send | disconnect =>
    cases h
    rfl
  | transfer op k =>
    obtain ⟨-, -, -, -, -, hReading, -⟩ := transfer_frame h
    exact hReading
  | complete c => exact absurd rfl (hOutside c)

theorem Reads.performAll (h : Reads e) (hGoes : ∀ effect ∈ effects, effect.Goes) :
    Reads (e.performAll effects) := by
  intro read hMem
  rw [performAll_reading] at hMem
  rcases List.mem_append.mp hMem with hOld | hNew
  · exact h read hOld
  · obtain ⟨effect, hEffect, hRead⟩ := List.mem_filterMap.mp hNew
    have hGo := hGoes effect hEffect
    cases effect with
    | asyncRead op n =>
      cases hRead
      exact hGo
    | asyncConnect | asyncWrite | onValidate | onInvalidate | disconnect | postClose | emplaceBack
    | emptyDeque => cases hRead

/-- A handler takes what has completed from what is outstanding: a write, a lambda, the
connect, or a read that has filled its buffer. -/
theorem handle_spends {c : Completion} (hFails : c.fails = false) (hReads : Reads e)
    (h : e.handle c = some (e', effects)) :
    e'.writes + e'.posted.length + e'.connecting.toNat <
      e.writes + e.posted.length + e.connecting.toNat + c.bytes.length ∧ Reads e' := by
  cases c with
  | connectFailed | readFailed | writeFailed => cases hFails
  | connected =>
    simp only [handle] at h
    split at h
    · rename_i hConnecting
      cases h
      refine ⟨?_, hReads⟩
      show e.writes + e.posted.length + 0 < _
      rw [hConnecting, Bool.toNat_true]
      omega
    · cases h
  | read op bytes =>
    simp only [handle] at h
    split at h
    · rename_i hMem
      cases h
      have hPos : 0 < bytes.length := hReads _ hMem
      refine ⟨?_, fun read hRead => hReads read (List.mem_of_mem_erase hRead)⟩
      show e.writes + e.posted.length + e.connecting.toNat < _ + bytes.length
      omega
    · cases h
  | written op =>
    simp only [handle] at h
    split at h
    · rename_i rest hWriting
      have hOne : Endpoint.writes { e with writing := Function.update e.writing op rest } + 1 =
          e.writes := writes_update hWriting rfl
      cases h
      refine ⟨?_, hReads⟩
      show Endpoint.writes { e with writing := Function.update e.writing op rest } +
        e.posted.length + e.connecting.toNat < _
      omega
    · cases h
  | lambda =>
    simp only [handle] at h
    split at h
    · rename_i m rest hPosted
      cases h
      refine ⟨?_, hReads⟩
      show e.writes + rest.length + e.connecting.toNat < _
      rw [hPosted, List.length_cons]
      omega
    · rename_i rest hPosted
      cases h
      refine ⟨?_, hReads⟩
      show e.writes + rest.length + e.connecting.toNat < _
      rw [hPosted, List.length_cons]
      omega
    · cases h

/-- **A completion that does not fail lowers the load.** -/
theorem load_complete {c : Completion} (hFails : c.fails = false)
    (hEnds : c.ends e.connection = false) (hReads : Reads e)
    (h : e.step (.complete c) = some e') (hVolume : e'.handed.length ≤ volume)
    (hExpected : e'.consumed.length ≤ expected) :
    e'.load volume expected < e.load volume expected ∧ Reads e' := by
  simp only [step, Option.map_eq_some_iff] at h
  obtain ⟨⟨e₁, effects⟩, hHandle, rfl⟩ := h
  have hGoes := handle_goes hFails hEnds hHandle
  obtain ⟨-, hWire, hHistory⟩ := handle_keeps hHandle
  have hConsumed : e₁.consumed = e.consumed ++ c.bytes := handle_consumed hHandle
  obtain ⟨hSpends, hReads'⟩ := handle_spends hFails hReads hHandle
  refine ⟨(load_performAll hGoes hVolume).trans_lt ?_, hReads'.performAll hGoes⟩
  rw [performAll_consumed, hConsumed, List.length_append] at hExpected
  simp only [load, hWire, handed, hHistory, hConsumed, List.length_append]
  omega

/-- **So does a transfer that moves some bytes.** -/
theorem load_transfer {op : WriteOp} {k : Nat} {bytes : List UInt8} {rest : List (List UInt8)}
    (hWriting : e.writing op = bytes :: rest) (hBytes : bytes.take k ≠ [])
    (h : e.transfer op k = some e') (hVolume : e'.wire.length ≤ volume) :
    e'.load volume expected < e.load volume expected ∧ e'.reading = e.reading := by
  have hPos : 0 < (bytes.take k).length := List.length_pos_iff.mpr hBytes
  obtain ⟨-, -, hPosted, hHistory, hConnecting, hReading, hConsumed, -⟩ := transfer_frame h
  have hWrites : e'.writes = e.writes := writes_congr (transfer_outstanding h)
  have hWire : e'.wire = e.wire ++ bytes.take k := by
    simp only [transfer, hWriting, Option.some.injEq] at h
    rw [← h]
  rw [hWire, List.length_append] at hVolume
  refine ⟨?_, hReading⟩
  simp only [load, hWire, handed, hHistory, hWrites, hPosted, hConsumed, hConnecting,
    List.length_append]
  omega

end Endpoint

end MinecraftNetwork
