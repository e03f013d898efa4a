import MinecraftNetwork.Endpoint.Wire

/-!
# The write chain neither stalls nor overlaps

`WriteChain.turn` says what a lambda or a completion of `WriteHeader` and `WriteBody` does in
every run. Two facts about the whole run follow from it: the outstanding write is one of the
front message, and `Front` and `PopFront` find an element (`Fronted`); and nothing is
written after a failed write (`Silent`).

The handshake may still have a write outstanding when the first lambda runs, so that the
count of all writes is that of the write chain only once the handshake is complete
(`write_chain_in_step`).
-/

namespace MinecraftNetwork

open Runs

/-- The bytes a write of the chain takes from the front message. -/
def WriteOp.part : WriteOp → Message → List UInt8
  | .header, m => m.header.bytes
  | .body, m => m.body
  | _, _ => []

theorem WriteOp.sendsFrame_cases (op : WriteOp) (h : op.sendsFrame = true) :
    op = .header ∨ op = .body := by
  cases op with
  | header => exact .inl rfl
  | body => exact .inr rfl
  | validation1 | validation2 | validation3 | validation4 => cases h

/-- An `async_write` is started. -/
def Effect.isWrite : Effect → Bool
  | .asyncWrite _ _ => true
  | .asyncConnect | .asyncRead _ _ | .onValidate _ | .onInvalidate | .disconnect | .postClose
  | .emplaceBack _ _ | .emptyDeque => false

namespace Endpoint

/-- `WriteHeader`, if there is a front message. -/
def header? : List Message → List Effect
  | m :: _ => [.asyncWrite .header m.header.bytes]
  | [] => []

/-- What a lambda or a completion of the write chain does. -/
inductive Turn (e : Endpoint) : Completion → Endpoint → List Effect → Prop
  /-- The lambda of `Send` finds the queue empty. -/
  | first {m : Message} {posted : List Lambda} (hPosted : e.posted = .send m :: posted)
      (hQueue : e.connection.outgoingMessages = []) :
      Turn e .lambda
        { e with posted := posted, connection := { e.connection with outgoingMessages := [m] } }
        [.asyncWrite .header m.header.bytes]
  /-- The lambda of `Send` finds a message in the queue. -/
  | behind {m : Message} {posted : List Lambda} (hPosted : e.posted = .send m :: posted)
      (hQueue : e.connection.outgoingMessages ≠ []) :
      Turn e .lambda
        { e with posted := posted, connection := { e.connection with
          outgoingMessages := e.connection.outgoingMessages ++ [m] } } []
  | close {posted : List Lambda} (hPosted : e.posted = .close :: posted) :
      Turn e .lambda
        { e with posted := posted, connection := { e.connection with isOpen := false } } []
  /-- The body of the front message follows its header. -/
  | body {m : Message} {rest : List Message}
      (hQueue : e.connection.outgoingMessages = m :: rest)
      (hWriting : e.writing .header = [[]]) (hBody : m.body ≠ []) :
      Turn e (.written .header) { e with writing := Function.update e.writing .header [] }
        [.asyncWrite .body m.body]
  /-- The front message is complete. -/
  | sent {op : WriteOp} {m : Message} {rest : List Message}
      (hOp : op = .body ∨ op = .header ∧ m.body = [])
      (hQueue : e.connection.outgoingMessages = m :: rest) (hWriting : e.writing op = [[]]) :
      Turn e (.written op)
        { e with
          writing := Function.update e.writing op []
          connection := { e.connection with outgoingMessages := rest } } (header? rest)
  | failed {op : WriteOp} {bytes : List UInt8} (hOp : op.sendsFrame = true)
      (hWriting : e.writing op = [bytes]) :
      Turn e (.writeFailed op)
        { e with
          writing := Function.update e.writing op []
          ended := e.ended || !op.sendsFrame
          writeFailed := e.writeFailed || op.sendsFrame } e.connection.disconnect

theorem messageWritten_eq {c : Connection} {m : Message} {rest : List Message}
    (h : c.outgoingMessages = m :: rest) :
    c.messageWritten = ({ c with outgoingMessages := rest }, header? rest) := by
  simp only [Connection.messageWritten, h]
  cases rest with
  | nil => rfl
  | cons m' rest => rfl

/-- **The turns of the write chain**, in every run. -/
theorem WriteChain.turn {e e' : Endpoint} {effects : List Effect} {c : Completion}
    {done : List Message} (h : WriteChain e done) (hFrame : c.isMain = false)
    (hHandle : e.handle c = some (e', effects)) : Turn e c e' effects := by
  have hLe := h.outstanding_le
  have hOne : ∀ {op bytes rest}, op.sendsFrame = true → e.writing op = bytes :: rest →
      rest = [] := by
    intro op bytes rest hOp hWriting
    have hLength : e.outstanding op = rest.length + 1 := by simp [outstanding, hWriting]
    refine List.eq_nil_of_length_eq_zero ?_
    rcases op.sendsFrame_cases hOp with rfl | rfl <;> omega
  cases c with
  | lambda =>
    simp only [handle] at hHandle
    split at hHandle
    · rename_i m posted hPosted
      cases hHandle
      cases hQueue : e.connection.outgoingMessages with
      | nil =>
        have hTurn := Turn.first hPosted hQueue
        simpa [resume, Connection.runSend, hQueue, Connection.writeHeader] using hTurn
      | cons m' rest =>
        have hTurn := Turn.behind hPosted (by simp [hQueue])
        simpa [resume, Connection.runSend, hQueue] using hTurn
    · rename_i posted hPosted
      cases hHandle
      exact .close hPosted
    · cases hHandle
  | written op =>
    have hOp : op.sendsFrame = true := by simpa [Completion.isMain] using hFrame
    simp only [handle] at hHandle
    split at hHandle
    · rename_i rest hWriting
      cases hHandle
      obtain rfl := hOne hOp hWriting
      have hOut : e.outstanding op = 1 := by simp [outstanding, hWriting]
      obtain ⟨m, rest, hQueue⟩ : ∃ m rest, e.connection.outgoingMessages = m :: rest := by
        cases h.state with
        | header hQueue | body hQueue | failed hQueue => exact ⟨_, _, hQueue⟩
        | idle _ _ _ hHeader hBody => rcases op.sendsFrame_cases hOp with rfl | rfl <;> omega
      rcases op.sendsFrame_cases hOp with rfl | rfl
      · by_cases hBody : m.body = []
        · have hTurn := Turn.sent (.inr ⟨rfl, hBody⟩) hQueue hWriting
          simpa [resume, Connection.writeDone, Connection.writeHeaderDone, hQueue, hBody,
            messageWritten_eq hQueue] using hTurn
        · have hTurn := Turn.body hQueue hWriting hBody
          simpa [resume, Connection.writeDone, Connection.writeHeaderDone, hQueue, hBody,
            List.length_pos_iff, Connection.writeBody] using hTurn
      · have hTurn := Turn.sent (.inl rfl) hQueue hWriting
        simpa [resume, Connection.writeDone, Connection.writeBodyDone,
          messageWritten_eq hQueue] using hTurn
    · cases hHandle
  | writeFailed op =>
    have hOp : op.sendsFrame = true := by simpa [Completion.isMain] using hFrame
    simp only [handle] at hHandle
    split at hHandle
    · rename_i bytes rest hWriting
      cases hHandle
      obtain rfl := hOne hOp hWriting
      exact .failed hOp hWriting
    · cases hHandle
  | connected | connectFailed | read | readFailed => cases hFrame

end Endpoint

/-! ## The front message -/

namespace Connection

theorem readValidation_deque (owner : ConnectionOwner) (op : ReadOp) (c : Connection) :
    .emptyDeque ∉ readValidation owner op c := by
  unfold readValidation
  split <;> simp

theorem writeValidation_deque (owner : ConnectionOwner) (op : WriteOp)
    (field : Connection → UInt64) (c : Connection) :
    .emptyDeque ∉ writeValidation owner op field c := by
  unfold writeValidation
  split <;> simp

theorem disconnect_deque (c : Connection) : .emptyDeque ∉ c.disconnect := by
  unfold disconnect
  split
  · split <;> simp
  · simp

/-- The handshake and read chain does not look at the outgoing queue. -/
theorem resume_deque (c : Connection) {completion : Completion} (hMain : completion.isMain = true) :
    .emptyDeque ∉ (completion.resume c).2 := by
  cases completion with
  | connected => exact readValidation_deque _ _ _
  | connectFailed | readFailed | writeFailed => exact c.disconnect_deque
  | written op =>
    cases op with
    | header | body => cases hMain
    | validation1 | validation2 => exact readValidation_deque _ _ _
    | validation3 => exact writeValidation_deque _ _ _ _
    | validation4 => simp [Completion.resume, writeDone, readHeader]
  | lambda => cases hMain
  | read op bytes =>
    cases op with
    | header =>
      simp only [Completion.resume, readDone, readHeaderDone]
      split <;> simp [readBody, addToIncomingMessageQueue, readHeader]
    | body => simp [Completion.resume, readDone, readBodyDone, addToIncomingMessageQueue, readHeader]
    | validation1 => exact writeValidation_deque _ _ _ _
    | validation2 =>
      simp only [Completion.resume, readDone, readValidation2Done]
      split
      · exact List.not_mem_cons_of_ne_of_not_mem (by simp) (writeValidation_deque _ _ _ _)
      · exact List.not_mem_cons_of_ne_of_not_mem (by simp) (disconnect_deque _)
    | validation3 =>
      simp only [Completion.resume, readDone, readValidation3Done]
      split
      · exact readValidation_deque _ _ _
      · exact List.not_mem_cons_of_ne_of_not_mem (by simp) (disconnect_deque _)
    | validation4 => simp [Completion.resume, readDone, readValidation4Done, readHeader]

end Connection

namespace Endpoint

/-- The outstanding write takes its bytes from the front message, and `Front` and `PopFront`
have found one. -/
structure Fronted (e : Endpoint) : Prop where
  part : ∀ op bytes, op.sendsFrame = true → bytes ∈ e.writing op →
    ∃ m rest, e.connection.outgoingMessages = m :: rest ∧ bytes <:+ op.part m
  deque : .emptyDeque ∉ e.history

/-- The step completes the front message, which is then removed. -/
def Completes (m : Message) (event : Event) : Prop :=
  event = .complete (.written .body) ∨ event = .complete (.written .header) ∧ m.body = []

theorem Fronted.transfer {e e' : Endpoint} {op : WriteOp} {k : Nat} (h : Fronted e)
    (hStep : e.transfer op k = some e') : Fronted e' := by
  obtain ⟨hConnection, -, -, hHistory, -⟩ := transfer_frame hStep
  obtain ⟨bytes', rest, hWriting, hUpdate⟩ := transfer_writing hStep
  refine ⟨fun op' bytes hOp hMem => ?_, by rw [hHistory]; exact h.deque⟩
  rw [hUpdate] at hMem
  rw [hConnection]
  by_cases hSame : op' = op
  · subst hSame
    rw [Function.update_self] at hMem
    rcases List.mem_cons.mp hMem with rfl | hMem
    · obtain ⟨m, others, hQueue, hSuffix⟩ := h.part op' bytes' hOp (by simp [hWriting])
      exact ⟨m, others, hQueue, (List.drop_suffix _ _).trans hSuffix⟩
    · exact h.part op' bytes hOp (by simp [hWriting, hMem])
  · rw [Function.update_of_ne hSame] at hMem
    exact h.part op' bytes hOp hMem

/-- When no write of the chain is outstanding, the header of the front message may be
written. -/
theorem fronted_header? {e : Endpoint} (hNone : ∀ op, op.sendsFrame = true → e.writing op = [])
    (hDeque : .emptyDeque ∉ e.history) :
    Fronted (e.performAll (header? e.connection.outgoingMessages)) := by
  refine ⟨fun op bytes hOp hMem => ?_, ?_⟩
  · rw [performAll_connection]
    rw [performAll_writing, hNone op hOp, List.nil_append] at hMem
    cases hQueue : e.connection.outgoingMessages with
    | nil => simp [hQueue, header?] at hMem
    | cons m rest =>
      refine ⟨m, rest, rfl, ?_⟩
      rcases op.sendsFrame_cases hOp with rfl | rfl
      · obtain rfl : bytes = m.header.bytes := by simpa [hQueue, header?, Effect.write?] using hMem
        exact List.suffix_rfl
      · simp [hQueue, header?, Effect.write?] at hMem
  · rw [performAll_history, List.mem_append, not_or]
    refine ⟨hDeque, ?_⟩
    cases e.connection.outgoingMessages <;> simp [header?]

/-- The write that completes was the only one of the chain. -/
theorem WriteChain.writing_update {e : Endpoint} {done : List Message} (h : WriteChain e done)
    {op : WriteOp} {bytes : List UInt8} (hOp : op.sendsFrame = true)
    (hWriting : e.writing op = [bytes]) :
    ∀ op', op'.sendsFrame = true → Function.update e.writing op [] op' = [] := by
  intro op' hOp'
  have hLe := h.outstanding_le
  have hOne : e.outstanding op = 1 := by simp [outstanding, hWriting]
  by_cases hSame : op' = op
  · rw [hSame, Function.update_self]
  · rw [Function.update_of_ne hSame]
    refine List.eq_nil_of_length_eq_zero ?_
    change e.outstanding op' = 0
    rcases op.sendsFrame_cases hOp with rfl | rfl
    · rcases op'.sendsFrame_cases hOp' with rfl | rfl
      · exact absurd rfl hSame
      · omega
    · rcases op'.sendsFrame_cases hOp' with rfl | rfl
      · omega
      · exact absurd rfl hSame

theorem WriteChain.writing_nil {e : Endpoint} {done : List Message} (h : WriteChain e done)
    (hQueue : e.connection.outgoingMessages = []) :
    ∀ op, op.sendsFrame = true → e.writing op = [] := by
  intro op hOp
  refine List.eq_nil_of_length_eq_zero ?_
  change e.outstanding op = 0
  cases h.state with
  | idle _ _ _ hHeader hBody =>
    rcases op.sendsFrame_cases hOp with rfl | rfl
    · exact hHeader
    · exact hBody
  | header hSome | body hSome | failed hSome =>
    rw [hQueue] at hSome
    cases hSome

/-- A turn of the write chain keeps to the front message. -/
theorem Fronted.turn {e e' : Endpoint} {effects : List Effect} {c : Completion}
    {done : List Message} (h : Fronted e) (hChain : WriteChain e done)
    (hTurn : Turn e c e' effects) : Fronted (e'.performAll effects) := by
  cases hTurn with
  | first hPosted hQueue => exact fronted_header? (hChain.writing_nil hQueue) h.deque
  | @behind m' posted hPosted hQueue =>
    refine ⟨fun op bytes hOp hMem => ?_, h.deque⟩
    obtain ⟨m, rest, hFront, hSuffix⟩ := h.part op bytes hOp hMem
    refine ⟨m, rest ++ [m'], ?_, hSuffix⟩
    change e.connection.outgoingMessages ++ [m'] = _
    rw [hFront, List.cons_append]
  | close hPosted => exact ⟨h.part, h.deque⟩
  | @body m rest hQueue hWriting hBody =>
    have hNone := hChain.writing_update rfl hWriting
    refine ⟨fun op bytes hOp hMem => ⟨m, rest, hQueue, ?_⟩, ?_⟩
    · rw [performAll_writing] at hMem
      rw [show Endpoint.writing { e with writing := Function.update e.writing .header [] } op = []
        from hNone op hOp, List.nil_append] at hMem
      rcases op.sendsFrame_cases hOp with rfl | rfl
      · simp [Effect.write?] at hMem
      · obtain rfl : bytes = m.body := by simpa [Effect.write?] using hMem
        exact List.suffix_rfl
    · rw [performAll_history]
      simpa using h.deque
  | @sent op m rest hOp hQueue hWriting =>
    have hFrame : op.sendsFrame = true := by
      rcases hOp with rfl | ⟨rfl, -⟩ <;> rfl
    exact fronted_header? (hChain.writing_update hFrame hWriting) h.deque
  | @failed op bytes hOp hWriting =>
    have hNone := hChain.writing_update hOp hWriting
    refine ⟨fun op' bytes' hOp' hMem => ?_, ?_⟩
    · rw [performAll_writing, write?_main e.connection.disconnect_main hOp', List.append_nil]
        at hMem
      rw [show Endpoint.writing _ op' = [] from hNone op' hOp'] at hMem
      cases hMem
    · rw [performAll_history, List.mem_append, not_or]
      exact ⟨h.deque, e.connection.disconnect_deque⟩

theorem Fronted.step {e e' : Endpoint} {event : Event} {done : List Message} (h : Fronted e)
    (hChain : WriteChain e done) (hStep : e.step event = some e') : Fronted e' := by
  cases event with
  | send m =>
    cases hStep
    exact ⟨h.part, h.deque⟩
  | disconnect =>
    cases hStep
    exact ⟨h.part, h.deque⟩
  | transfer op k => exact h.transfer hStep
  | complete c =>
    simp only [Endpoint.step, Option.map_eq_some_iff] at hStep
    obtain ⟨⟨e₁, effects⟩, hHandle, rfl⟩ := hStep
    by_cases hMain : c.isMain = true
    · obtain ⟨hEffects, hQueue, -, -, hHistory, -, -, hWriting⟩ := handle_main hMain hHandle
      refine ⟨fun op bytes hOp hMem => ?_, ?_⟩
      · rw [performAll_writing, hWriting op hOp, write?_main hEffects hOp, List.append_nil] at hMem
        rw [performAll_connection, hQueue]
        exact h.part op bytes hOp hMem
      · rw [performAll_history, hHistory, List.mem_append, not_or]
        refine ⟨h.deque, ?_⟩
        rw [(handle_resume hMain hHandle).2.1]
        exact e.connection.resume_deque hMain
    · exact h.turn hChain (hChain.turn (by simpa using hMain) hHandle)

theorem Fronted.start (lambdas : List Lambda) (s : Start) : Fronted (start lambdas s) := by
  refine ⟨fun op bytes hOp hMem => ?_, ?_⟩
  · have hNone := (WriteChain.start lambdas s).writing_nil (by cases s <;> rfl) op hOp
    rw [hNone] at hMem
    cases hMem
  · cases s with
    | created owner isOpen => exact List.not_mem_nil
    | server now id =>
      change Effect.emptyDeque ∉ [Effect.asyncWrite .validation1 _]
      simp
    | client opened =>
      change Effect.emptyDeque ∉ [Effect.asyncConnect]
      simp

/-- **The writes of a run are those of the front messages.** -/
theorem fronted_of_reach {s : Start} {ok : Endpoint → Event → Prop} {e : Endpoint}
    (h : Reach (system s) ok e) : Fronted e ∧ ∃ done, WriteChain e done := by
  refine h.invariant (I := fun e => Fronted e ∧ ∃ done, WriteChain e done) ?_ ?_
  · rintro _ ⟨lambdas, rfl⟩
    exact ⟨Fronted.start lambdas s, [], WriteChain.start lambdas s⟩
  · rintro e event e' ⟨hFronted, done, hChain⟩ - hStep
    exact ⟨hFronted.step hChain hStep, hChain.step hStep⟩

/-- The front message stays where it is, or the step completes it. -/
theorem WriteChain.front_step {e e' : Endpoint} {event : Event} {done rest : List Message}
    {m : Message} (h : WriteChain e done) (hQueue : e.connection.outgoingMessages = m :: rest)
    (hStep : e.step event = some e') :
    (∃ later, e'.connection.outgoingMessages = m :: later) ∨
      Completes m event ∧ e'.connection.outgoingMessages = rest := by
  cases event with
  | send m' =>
    cases hStep
    exact .inl ⟨rest, hQueue⟩
  | disconnect =>
    cases hStep
    exact .inl ⟨rest, hQueue⟩
  | transfer op k =>
    rw [(transfer_frame hStep).1]
    exact .inl ⟨rest, hQueue⟩
  | complete c =>
    simp only [Endpoint.step, Option.map_eq_some_iff] at hStep
    obtain ⟨⟨e₁, effects⟩, hHandle, rfl⟩ := hStep
    rw [performAll_connection]
    by_cases hMain : c.isMain = true
    · rw [(handle_main hMain hHandle).2.1]
      exact .inl ⟨rest, hQueue⟩
    · cases h.turn (by simpa using hMain) hHandle with
      | first hPosted hEmpty =>
        rw [hQueue] at hEmpty
        cases hEmpty
      | @behind m' posted hPosted hSome =>
        left
        refine ⟨rest ++ [m'], ?_⟩
        change e.connection.outgoingMessages ++ [m'] = _
        rw [hQueue, List.cons_append]
      | close hPosted => exact .inl ⟨rest, hQueue⟩
      | body hFront hWriting hBody => exact .inl ⟨rest, hQueue⟩
      | failed hOp hWriting => exact .inl ⟨rest, hQueue⟩
      | @sent op m' rest' hOp hFront hWriting =>
        obtain ⟨rfl, rfl⟩ := List.cons.inj (hQueue.symm.trans hFront)
        right
        refine ⟨?_, rfl⟩
        rcases hOp with rfl | ⟨rfl, hEmpty⟩
        · exact .inl rfl
        · exact .inr ⟨rfl, hEmpty⟩

/-! ## After a failed write -/

/-- The state after a write has failed. -/
structure Silent (s : Start) (e : Endpoint) : Prop where
  stage : InStage s e
  chain : ∃ done, WriteChain e done
  completed : e.completed = true
  failed : e.writeFailed = true

theorem Silent.writes {s : Start} {e : Endpoint} (h : Silent s e) : e.writes = 0 := by
  obtain ⟨done, hChain⟩ := h.chain
  rw [writes_handshakeSent h.stage (h.stage.handshakeSent h.completed)]
  cases hChain.state with
  | failed _ _ _ hHeader hBody => rw [hHeader, hBody]
  | idle _ hSound | header _ hSound | body _ hSound =>
    rw [h.failed] at hSound
    cases hSound

theorem handle_writeFailed {e e' : Endpoint} {effects : List Effect} {c : Completion}
    (hFailed : e.writeFailed = true) (h : e.handle c = some (e', effects)) :
    e'.writeFailed = true := by
  cases c with
  | lambda =>
    simp only [handle] at h
    split at h <;> cases h <;> exact hFailed
  | writeFailed op =>
    simp only [handle] at h
    split at h <;> cases h
    simp [hFailed]
  | connected | connectFailed | read | readFailed | written =>
    simp only [handle] at h
    split at h <;> cases h
    exact hFailed

/-- A step of a silent endpoint starts no write and puts nothing on the wire. -/
theorem Silent.step {s : Start} {e e' : Endpoint} {event : Event} (h : Silent s e)
    (hStep : e.step event = some e') : Silent s e' ∧ e'.wire = e.wire ∧
      ∃ later, e'.history = e.history ++ later ∧ ∀ x ∈ later, x.isWrite = false := by
  obtain ⟨done, hChain⟩ := h.chain
  obtain ⟨k, hWaits, -⟩ := h.stage
  have hStage' := h.stage.step hStep
  have hChain' := hChain.step hStep
  have hCompleted' := completed_step hWaits h.completed hStep
  cases event with
  | send m =>
    cases hStep
    exact ⟨⟨hStage', hChain', hCompleted', h.failed⟩, rfl, [], by simp [Endpoint.send], by simp⟩
  | disconnect =>
    cases hStep
    exact ⟨⟨hStage', hChain', hCompleted', h.failed⟩, rfl, [], by simp [Endpoint.disconnect],
      by simp⟩
  | transfer op n =>
    obtain ⟨bytes, rest, hWriting, -⟩ := transfer_writing hStep
    rw [writes_eq_zero.mp h.writes op] at hWriting
    cases hWriting
  | complete c =>
    simp only [Endpoint.step, Option.map_eq_some_iff] at hStep
    obtain ⟨⟨e₁, effects⟩, hHandle, rfl⟩ := hStep
    obtain ⟨-, hWire, hHistory⟩ := handle_keeps hHandle
    have hFailed : (e₁.performAll effects).writeFailed = true := by
      rw [performAll_writeFailed]
      exact handle_writeFailed h.failed hHandle
    have hSilent : Silent s (e₁.performAll effects) := ⟨hStage', hChain', hCompleted', hFailed⟩
    refine ⟨hSilent, by rw [performAll_wire, hWire], effects, by rw [performAll_history, hHistory],
      fun x hx => ?_⟩
    cases x with
    | asyncWrite op bytes =>
      have hNone := writes_eq_zero.mp hSilent.writes op
      rw [performAll_writing] at hNone
      have hMem : bytes ∈ effects.filterMap (Effect.write? op) :=
        List.mem_filterMap.mpr ⟨_, hx, by simp [Effect.write?]⟩
      rw [(List.append_eq_nil_iff.mp hNone).2] at hMem
      cases hMem
    | _ => rfl

/-- The runs that go on from a state. -/
def after (e : Endpoint) : System Endpoint Event where
  init e' := e' = e
  step := Endpoint.step

theorem Silent.run {s : Start} {e e' : Endpoint} (h : Silent s e) (hRun : Reach (after e) Free e') :
    Silent s e' ∧ e'.wire = e.wire ∧
      ∃ later, e'.history = e.history ++ later ∧ ∀ x ∈ later, x.isWrite = false := by
  refine hRun.invariant (I := fun e' => Silent s e' ∧ e'.wire = e.wire ∧
    ∃ later, e'.history = e.history ++ later ∧ ∀ x ∈ later, x.isWrite = false) ?_ ?_
  · rintro _ rfl
    exact ⟨h, rfl, [], (List.append_nil _).symm, by simp⟩
  · rintro e₁ event e₂ ⟨hSilent, hWire, later, hHistory, hQuiet⟩ - hStep
    obtain ⟨hSilent', hWire', later', hHistory', hQuiet'⟩ := hSilent.step hStep
    refine ⟨hSilent', hWire'.trans hWire, later ++ later', ?_, fun x hx => ?_⟩
    · rw [hHistory', hHistory, List.append_assoc]
    · rcases List.mem_append.mp hx with hx | hx
      · exact hQuiet x hx
      · exact hQuiet' x hx

/-! ## One connection past its handshake -/

/-- The outstanding write is of the front message, which no step but its completion moves. -/
def FrontWritten (e : Endpoint) : Prop :=
  ∀ m rest, e.connection.outgoingMessages = m :: rest →
    ∃ op bytes, op.sendsFrame = true ∧ e.writing op = [bytes] ∧ bytes <:+ op.part m ∧
      ∀ event e', e.step event = some e' →
        (∃ later, e'.connection.outgoingMessages = m :: later) ∨
          event = .complete (.written op) ∧ Completes m event ∧
            e'.connection.outgoingMessages = rest

theorem Fronted.frontWritten {e : Endpoint} {done : List Message} (h : Fronted e)
    (hChain : WriteChain e done) (hSound : e.writeFailed = false) : FrontWritten e := by
  intro m rest hQueue
  obtain ⟨op, hOp, hOne⟩ : ∃ op : WriteOp, op.sendsFrame = true ∧ e.outstanding op = 1 := by
    cases hChain.state with
    | idle hEmpty =>
      rw [hQueue] at hEmpty
      cases hEmpty
    | header _ _ _ hHeader _ => exact ⟨.header, rfl, hHeader⟩
    | body _ _ _ _ hBody => exact ⟨.body, rfl, hBody⟩
    | failed _ hFailed =>
      rw [hSound] at hFailed
      cases hFailed
  obtain ⟨bytes, hWriting⟩ := List.length_eq_one_iff.mp hOne
  obtain ⟨m', rest', hFront, hSuffix⟩ := h.part op bytes hOp (by simp [hWriting])
  obtain ⟨rfl, rfl⟩ := List.cons.inj (hQueue.symm.trans hFront)
  refine ⟨op, bytes, hOp, hWriting, hSuffix, fun event e' hStep => ?_⟩
  rcases hChain.front_step hQueue hStep with hStays | ⟨hCompletes, hRest⟩
  · exact .inl hStays
  · right
    refine ⟨?_, hCompletes, hRest⟩
    have hOthers := hChain.writing_update hOp hWriting
    have hRuns : ∀ op', op'.sendsFrame = true → event = .complete (.written op') → op' = op := by
      rintro op' hOp' rfl
      by_contra hNe
      have hNone := hOthers op' hOp'
      rw [Function.update_of_ne hNe] at hNone
      simp only [Endpoint.step, handle, hNone] at hStep
      cases hStep
    rcases hCompletes with rfl | ⟨rfl, -⟩
    · rw [hRuns .body rfl rfl]
    · rw [hRuns .header rfl rfl]

/-- **The write chain neither stalls nor overlaps**: past the handshake, and as long as no
write has failed, the queue holds a message exactly when one write is outstanding, that of
the front message; after a failed write no other is started. -/
theorem write_chain_in_step {s : Start} {e : Endpoint} (h : Reach (system s) Free e)
    (hCompleted : e.completed = true) :
    .emptyDeque ∉ e.history ∧
      (e.writeFailed = false →
        (e.connection.outgoingMessages ≠ [] ↔ e.writes = 1) ∧ e.writes ≤ 1 ∧ FrontWritten e) ∧
      (e.writeFailed = true → ∀ e', Reach (after e) Free e' → e'.wire = e.wire ∧
        ∃ later, e'.history = e.history ++ later ∧ ∀ x ∈ later, x.isWrite = false) := by
  obtain ⟨hFronted, done, hChain⟩ := fronted_of_reach h
  have hStage := exists_stage h
  have hWrites := writes_handshakeSent hStage (hStage.handshakeSent hCompleted)
  refine ⟨hFronted.deque, fun hSound => ⟨?_, ?_, hFronted.frontWritten hChain hSound⟩,
    fun hFailed e' hRun => ?_⟩
  · rw [hWrites]
    cases hChain.state with
    | idle hQueue _ _ hHeader hBody => simp [hQueue, hHeader, hBody]
    | header hQueue _ _ hHeader hBody | body hQueue _ _ hHeader hBody =>
      simp [hQueue, hHeader, hBody]
    | failed _ hFailed =>
      rw [hSound] at hFailed
      cases hFailed
  · rw [hWrites]
    exact hChain.outstanding_le
  · exact (Silent.run ⟨hStage, ⟨done, hChain⟩, hCompleted, hFailed⟩ hRun).2

/-- The header of an empty message is on its way. -/
theorem write_chain_in_step_header : ∃ e, Reach (system (.server 0 1)) Free e ∧
    e.completed = true ∧ e.writeFailed = false ∧ e.writes = 1 := by
  obtain ⟨e, hReach, hEnd⟩ := Reach.exists_of_free (M := system (.server 0 1)) ⟨[], rfl⟩ lateSend
    (fun e => e.completed && !e.writeFailed && !e.connection.outgoingMessages.isEmpty) (by decide)
  simp only [Bool.and_eq_true, Bool.not_eq_true', List.isEmpty_eq_false_iff] at hEnd
  obtain ⟨⟨hCompleted, hSound⟩, hQueue⟩ := hEnd
  obtain ⟨-, hBusy, -⟩ := write_chain_in_step hReach hCompleted
  exact ⟨e, hReach, hCompleted, hSound, (hBusy hSound).1.mp hQueue⟩

end Endpoint

end MinecraftNetwork
